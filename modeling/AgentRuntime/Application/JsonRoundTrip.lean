import AgentRuntime.Application.JsonText

/-!
# JSON texts are read back

The scanner is followed along the text the writer produced: escapes first, then strings, then
items and members separated by commas, then numbers, with whatever follows a value left alone.

* `TextStyle.Readable`: what a style must guarantee: an escaped character is scanned back, and
  the separators are a comma and a colon followed by blanks;
* `Reader.value_text`: a written value is scanned back by any reader that reads its leaves;
* `loads_text`: `json.loads` inverts `json.dumps` in every readable style, on the values Python
  holds (`Held`).
-/

namespace AgentRuntime.Application

open Domain Lib

/-! ### Characters are scanned back -/

theorem scanHex4_hex4 {n : ℕ} (h : n < 65536) (rest : List Char) :
    scanHex4 (hex4 n ++ rest) = some (n, rest) := by
  have hdigit : ∀ k, hexValue? (hexDigit (k % 16)) = some (k % 16) := by
    intro k
    exact hexValue?_hexDigit (Nat.mod_lt k (by norm_num))
  have hvalue : 4096 * (n / 4096 % 16) + 256 * (n / 256 % 16) + 16 * (n / 16 % 16) + n % 16 = n := by
    omega
  show (do
    let a ← hexValue? (hexDigit (n / 4096 % 16))
    let b ← hexValue? (hexDigit (n / 256 % 16))
    let c ← hexValue? (hexDigit (n / 16 % 16))
    let d ← hexValue? (hexDigit (n % 16))
    return (4096 * a + 256 * b + 16 * c + d, rest)) = some (n, rest)
  rw [hdigit, hdigit, hdigit, hdigit]
  show some (4096 * (n / 4096 % 16) + 256 * (n / 256 % 16) + 16 * (n / 16 % 16) + n % 16, rest) = _
  rw [hvalue]

theorem charOfCode?_toNat (c : Char) : charOfCode? c.toNat = some c := by
  have hvalid : c.toNat.isValidChar := c.valid
  unfold charOfCode?
  rw [if_pos hvalid, Char.ofNat_toNat]

variable {c : Char}

/-- A code unit that is no surrogate. -/
theorem scanCodeUnit_hex4 (h : c.toNat < 65536) (rest : List Char) :
    scanCodeUnit (hex4 c.toNat ++ rest) = some (c, rest) := by
  have hvalid : c.toNat < 0xD800 ∨ 0xDFFF < c.toNat ∧ c.toNat < 0x110000 := c.valid
  unfold scanCodeUnit
  rw [scanHex4_hex4 h]
  show (if 0xD800 ≤ c.toNat ∧ c.toNat < 0xDC00 then _ else _) = _
  rw [if_neg (by omega), charOfCode?_toNat]
  rfl

/-- A pair of surrogates. -/
theorem scanCodeUnit_pair {high low : ℕ} (hhigh : 0xD800 ≤ high ∧ high < 0xDC00)
    (hlow : 0xDC00 ≤ low ∧ low < 0xE000)
    (hcode : 0x10000 + 1024 * (high - 0xD800) + (low - 0xDC00) = c.toNat) (rest : List Char) :
    scanCodeUnit (hex4 high ++ '\\' :: 'u' :: (hex4 low ++ rest)) = some (c, rest) := by
  unfold scanCodeUnit
  rw [scanHex4_hex4 (by omega)]
  simp only [Option.bind_eq_bind, Option.bind_some, if_pos hhigh]
  rw [scanHex4_hex4 (by omega)]
  simp only [Option.bind_some, if_pos hlow, hcode, charOfCode?_toNat]
  rfl

theorem scanChar_plain (hslash : c ≠ '\\') (h : 32 ≤ c.toNat) (rest : List Char) :
    scanChar (c :: rest) = some (c, rest) := by
  show (if c = '\\' then _ else if c.toNat < 32 then none else some (c, rest)) = _
  rw [if_neg hslash, if_neg (by omega)]

theorem scanChar_letter {e d : Char} (he : e ≠ 'u') (h : letterEscape? e = some d)
    (rest : List Char) : scanChar ('\\' :: e :: rest) = some (d, rest) := by
  show (if e = 'u' then scanCodeUnit rest else (letterEscape? e).map fun d => (d, rest)) = _
  rw [if_neg he, h]
  rfl

/-- A character is what its code says. -/
theorem eq_ofNat_of_toNat {n : ℕ} (h : c.toNat = n) : c = Char.ofNat n := by
  rw [← h, Char.ofNat_toNat]

/-- One case of the escapes: a letter behind a backslash. -/
theorem scanChar_ite {p : Prop} [Decidable p] {e : Char} {cs rest : List Char}
    (he : e ≠ 'u') (hletter : p → letterEscape? e = some c)
    (h : ¬ p → scanChar (cs ++ rest) = some (c, rest)) :
    scanChar ((if p then ['\\', e] else cs) ++ rest) = some (c, rest) := by
  split_ifs with hp
  · exact scanChar_letter he (hletter hp) rest
  · exact h hp

theorem scanChar_escapeChar (c : Char) (rest : List Char) :
    scanChar (escapeChar c ++ rest) = some (c, rest) := by
  unfold escapeChar
  refine scanChar_ite (by decide) (fun h => by rw [h]; rfl) fun _ => ?_
  refine scanChar_ite (by decide) (fun h => by rw [h]; rfl) fun hslash => ?_
  refine scanChar_ite (by decide) (fun h => by rw [h]; rfl) fun _ => ?_
  refine scanChar_ite (by decide) (fun h => by rw [h]; rfl) fun _ => ?_
  refine scanChar_ite (by decide) (fun h => by rw [h]; rfl) fun _ => ?_
  refine scanChar_ite (by decide) (fun h => by rw [eq_ofNat_of_toNat h]; rfl) fun _ => ?_
  refine scanChar_ite (by decide) (fun h => by rw [eq_ofNat_of_toNat h]; rfl) fun _ => ?_
  by_cases hcontrol : c.toNat < 32
  · have hdigits : ['\\', 'u', '0', '0', hexDigit (c.toNat / 16), hexDigit (c.toNat % 16)]
        = '\\' :: 'u' :: hex4 c.toNat := by
      have h0 : c.toNat / 4096 % 16 = 0 := by omega
      have h1 : c.toNat / 256 % 16 = 0 := by omega
      have h2 : c.toNat / 16 % 16 = c.toNat / 16 := by omega
      unfold hex4
      rw [h0, h1, h2]
      rfl
    rw [if_pos hcontrol, hdigits]
    exact scanCodeUnit_hex4 (by omega) rest
  · rw [if_neg hcontrol]
    exact scanChar_plain hslash (by omega) rest

theorem scanChar_asciiEscape (c : Char) (rest : List Char) :
    scanChar (asciiEscape c ++ rest) = some (c, rest) := by
  unfold asciiEscape
  split_ifs with hascii hplane
  · exact scanChar_escapeChar c rest
  · exact scanCodeUnit_hex4 hplane rest
  · have hvalid : c.toNat < 0xD800 ∨ 0xDFFF < c.toNat ∧ c.toNat < 0x110000 := c.valid
    rw [List.cons_append, List.cons_append, List.append_assoc]
    exact scanCodeUnit_pair (by omega) (by omega) (by omega) rest

/-! ### Strings and blanks -/

/-- What reading back relies on. -/
structure TextStyle.Readable (S : TextStyle) : Prop where
  scan : ∀ c rest, scanChar (S.escape c ++ rest) = some (c, rest)
  unquoted : ∀ c, (S.escape c).head? ≠ some '"'
  comma : ∃ blanks, S.comma = ',' :: blanks ∧ ∀ b ∈ blanks, isBlank b = true
  colon : ∃ blanks, S.colon = ':' :: blanks ∧ ∀ b ∈ blanks, isBlank b = true

theorem skipBlanks_cons (h : isBlank c = false) (cs : List Char) :
    skipBlanks (c :: cs) = c :: cs := by
  unfold skipBlanks
  rw [List.dropWhile_cons_of_neg (by simp [h])]

theorem skipBlanks_blanks {blanks : List Char} (h : ∀ b ∈ blanks, isBlank b = true)
    (cs : List Char) : skipBlanks (blanks ++ cs) = skipBlanks cs :=
  List.dropWhile_append_of_pos h

theorem TextStyle.string_append (S : TextStyle) (s : String) (rest : List Char) :
    S.string s ++ rest = '"' :: (s.toList.flatMap S.escape ++ '"' :: rest) := by
  simp [TextStyle.string]

namespace TextStyle.Readable

variable {S : TextStyle} (hS : S.Readable)

include hS

/-- An escape has a first character, which is no quote. -/
theorem exists_cons (c : Char) : ∃ d ds, S.escape c = d :: ds ∧ d ≠ '"' := by
  cases h : S.escape c with
  | nil =>
    have hscan := hS.scan c []
    rw [h] at hscan
    exact absurd hscan (by simp [scanChar])
  | cons d ds =>
    refine ⟨d, ds, rfl, ?_⟩
    rintro rfl
    exact hS.unquoted c (by rw [h]; rfl)

theorem length_le_flatMap (cs : List Char) : cs.length ≤ (cs.flatMap S.escape).length := by
  induction cs with
  | nil => exact Nat.le_refl 0
  | cons c cs ih =>
    obtain ⟨d, ds, hescape, -⟩ := hS.exists_cons c
    rw [List.flatMap_cons, List.length_append, List.length_cons, hescape, List.length_cons]
    omega

/-- The characters of a string are scanned back up to the closing quote. -/
theorem scanString_escape (cs rest : List Char) {fuel : ℕ} (hfuel : cs.length < fuel) :
    scanString fuel (cs.flatMap S.escape ++ '"' :: rest) = some (cs, rest) := by
  induction cs generalizing fuel with
  | nil =>
    obtain ⟨f, rfl⟩ : ∃ f, fuel = f + 1 := ⟨fuel - 1, by simp at hfuel; omega⟩
    rfl
  | cons c cs ih =>
    obtain ⟨f, rfl⟩ : ∃ f, fuel = f + 1 := ⟨fuel - 1, by omega⟩
    obtain ⟨d, ds, hescape, hd⟩ := hS.exists_cons c
    have hscan := hS.scan c (cs.flatMap S.escape ++ '"' :: rest)
    rw [hescape, List.cons_append] at hscan
    rw [List.flatMap_cons, hescape, List.append_assoc, List.cons_append, scanString, if_neg hd,
      hscan]
    show ((scanString f (cs.flatMap S.escape ++ '"' :: rest)).bind fun p =>
      some (c :: p.1, p.2)) = _
    rw [ih (by simpa using hfuel)]
    rfl

theorem length_lt_string (s : String) : s.toList.length < (S.string s).length := by
  have := hS.length_le_flatMap s.toList
  unfold string
  simp only [List.length_cons, List.length_append, List.length_nil]
  omega

end TextStyle.Readable

/-! ### Values are read back -/

/-- A character a number can go on with. -/
def isNumberChar (c : Char) : Bool :=
  c.isDigit || c == '.' || c == 'e' || c == 'E' || c == '+' || c == '-'

/-- The text does not go on with a number. -/
def Delimited (rest : List Char) : Prop := ∀ c ∈ rest.head?, isNumberChar c = false

theorem delimited_nil : Delimited [] := by
  intro c hc
  cases hc

theorem delimited_cons (h : isNumberChar c = false) (cs : List Char) : Delimited (c :: cs) := by
  intro d hd
  cases hd
  exact h

/-- The text starts with a number: a digit, or a minus sign and a digit. -/
def StartsNumber (cs : List Char) : Prop :=
  ∃ d ds, d.isDigit = true ∧ (cs = d :: ds ∨ cs = '-' :: d :: ds)

theorem ne_of_isDigit {d : Char} (h : d.isDigit = true) (hc : c.isDigit = false) : c ≠ d := by
  rintro rfl
  rw [h] at hc
  exact Bool.noConfusion hc

theorem scanKeyword_number {cs : List Char} (h : StartsNumber cs) : scanKeyword cs = none := by
  obtain ⟨d, ds, hd, rfl | rfl⟩ := h
  · simp [scanKeyword, keywords, ne_of_isDigit hd]
  · simp [scanKeyword, keywords, ne_of_isDigit hd]

mutual

/-- A property of a value and of every value inside it. -/
def Every (P : Json → Prop) : Json → Prop
  | .arr xs => P (.arr xs) ∧ EveryItem P xs
  | .obj ms => P (.obj ms) ∧ EveryMember P ms
  | v => P v

def EveryItem (P : Json → Prop) : List Json → Prop
  | [] => True
  | x :: xs => Every P x ∧ EveryItem P xs

def EveryMember (P : Json → Prop) : List (String × Json) → Prop
  | [] => True
  | m :: ms => Every P m.2 ∧ EveryMember P ms

end

theorem everyItem_iff {P : Json → Prop} {xs : List Json} :
    EveryItem P xs ↔ ∀ x ∈ xs, Every P x := by
  induction xs with
  | nil => simp [EveryItem]
  | cons x xs ih => rw [EveryItem, ih, List.forall_mem_cons]

theorem everyMember_iff {P : Json → Prop} {ms : List (String × Json)} :
    EveryMember P ms ↔ ∀ m ∈ ms, Every P m.2 := by
  induction ms with
  | nil => simp [EveryMember]
  | cons m ms ih => rw [EveryMember, ih, List.forall_mem_cons]

/-- A value the reader can read: a finite float as it is written, a dictionary by its members. -/
def Reader.ReadsNode (R : Reader) : Json → Prop
  | .float (.finite t) =>
    StartsNumber t.chars
      ∧ ∀ rest, Delimited rest → R.number (t.chars ++ rest) = some (.float (.finite t), rest)
  | .obj ms => R.object ms = ms
  | _ => True

/-- A reader for integers. -/
def Reader.ReadsIntegers (R : Reader) : Prop :=
  ∀ n rest, Delimited rest → R.number (intText n ++ rest) = some (.int n, rest)

section ReadBack

variable {S : TextStyle} {R : Reader}

variable {size depth : ℕ}

theorem Reader.value_number (R : Reader) {cs rest : List Char} (h : StartsNumber cs) :
    R.value size (depth + 1) (cs ++ rest) = R.number (cs ++ rest) := by
  have hstarts : StartsNumber (cs ++ rest) := by
    obtain ⟨d, ds, hd, rfl | rfl⟩ := h
    · exact ⟨d, ds ++ rest, hd, .inl rfl⟩
    · exact ⟨d, ds ++ rest, hd, .inr rfl⟩
  have hkeyword := scanKeyword_number hstarts
  obtain ⟨d, ds, hd, heq | heq⟩ := hstarts
  · rw [heq] at hkeyword ⊢
    rw [Reader.value, if_neg (ne_of_isDigit hd rfl).symm, if_neg (ne_of_isDigit hd rfl).symm,
      if_neg (ne_of_isDigit hd rfl).symm, hkeyword]
    rfl
  · rw [heq] at hkeyword ⊢
    rw [Reader.value, if_neg (by decide), if_neg (by decide), if_neg (by decide), hkeyword]
    rfl

theorem Reader.value_string (hS : S.Readable) (s : String) (rest : List Char)
    (hsize : (S.string s).length ≤ size) :
    R.value size (depth + 1) (S.string s ++ rest) = some (.str s, rest) := by
  have hlt := hS.length_lt_string s
  rw [S.string_append, Reader.value, if_pos rfl, hS.scanString_escape s.toList rest (by omega)]
  show some (Json.str (String.ofList s.toList), rest) = _
  rw [String.ofList_toList]

/-- Texts separated by commas, after the first one, and the closing bracket. -/
def TextStyle.tailText (S : TextStyle) (close : Char) : List (List Char) → List Char
  | [] => [close]
  | t :: ts => S.comma ++ (t ++ S.tailText close ts)

theorem TextStyle.itemsText_eq (S : TextStyle) (xs : List Json) :
    S.itemsText xs = S.tailText ']' (xs.map S.text) := by
  induction xs with
  | nil => rfl
  | cons x xs ih => rw [itemsText, ih, List.map_cons, tailText]

/-- The text of a member. -/
def TextStyle.memberText (S : TextStyle) (m : String × Json) : List Char :=
  S.string m.1 ++ (S.colon ++ S.text m.2)

theorem TextStyle.membersText_eq (S : TextStyle) (ms : List (String × Json)) :
    S.membersText ms = S.tailText '}' (ms.map S.memberText) := by
  induction ms with
  | nil => rfl
  | cons m ms ih => rw [membersText, ih, List.map_cons, tailText, memberText]; simp

/-- A text that starts with neither a blank nor a closing bracket. -/
def Opens (cs : List Char) : Prop :=
  ∃ c ds, cs = c :: ds ∧ isBlank c = false ∧ c ≠ ']' ∧ c ≠ '}'

variable {cs : List Char}

theorem opens_cons (h : isBlank c = false ∧ c ≠ ']' ∧ c ≠ '}') (cs : List Char) :
    Opens (c :: cs) := ⟨c, cs, rfl, h⟩

theorem Opens.skipBlanks (h : Opens cs) (rest : List Char) :
    skipBlanks (cs ++ rest) = cs ++ rest := by
  obtain ⟨c, ds, rfl, hc, -, -⟩ := h
  exact skipBlanks_cons hc (ds ++ rest)

/-- Items are read back one after the other. -/
theorem scanList_text (hS : S.Readable) {α : Type} {write : α → List Char} {close : Char}
    {item : List Char → Option (α × List Char)} (hblank : isBlank close = false)
    (hclose : isNumberChar close = false) (hcomma : close ≠ ',') {xs : List α} {x : α}
    (hitem : ∀ y ∈ x :: xs, ∀ rest, Delimited rest → item (write y ++ rest) = some (y, rest))
    (hopen : ∀ y ∈ x :: xs, Opens (write y))
    {fuel : ℕ} (hfuel : xs.length < fuel) (rest : List Char) :
    scanList close item fuel (write x ++ (S.tailText close (xs.map write) ++ rest))
      = some (x :: xs, rest) := by
  induction xs generalizing x fuel with
  | nil =>
    obtain ⟨f, rfl⟩ : ∃ f, fuel = f + 1 := ⟨fuel - 1, by simp at hfuel; omega⟩
    show scanList close item (f + 1) (write x ++ close :: rest) = _
    rw [scanList, hitem x List.mem_cons_self (close :: rest) (delimited_cons hclose rest)]
    simp [skipBlanks_cons hblank]
  | cons y ys ih =>
    obtain ⟨f, rfl⟩ : ∃ f, fuel = f + 1 := ⟨fuel - 1, by omega⟩
    obtain ⟨blanks, hS', hblanks⟩ := hS.comma
    have hrest : S.tailText close ((y :: ys).map write) ++ rest
        = ',' :: (blanks ++ (write y ++ (S.tailText close (ys.map write) ++ rest))) := by
      rw [List.map_cons, TextStyle.tailText, hS']
      simp
    have hskip := (hopen y (by simp)).skipBlanks (S.tailText close (ys.map write) ++ rest)
    rw [hrest, scanList, hitem x List.mem_cons_self (',' :: _) (delimited_cons rfl _)]
    simp only [Option.bind_eq_bind, Option.bind_some, skipBlanks_cons (show isBlank ',' = false from rfl),
      if_neg hcomma.symm, if_true, skipBlanks_blanks hblanks, hskip,
      ih (fun z hz => hitem z (List.mem_cons_of_mem _ hz))
        (fun z hz => hopen z (List.mem_cons_of_mem _ hz)) (show ys.length < f by simpa using hfuel)]
    rfl

theorem scanMember_text (hS : S.Readable) {value : List Char → Option (Json × List Char)}
    {size : ℕ} {m : String × Json} {rest : List Char}
    (hvalue : value (S.text m.2 ++ rest) = some (m.2, rest)) (hopen : Opens (S.text m.2))
    (hsize : m.1.toList.length < size) :
    scanMember size value (S.memberText m ++ rest) = some (m, rest) := by
  obtain ⟨blanks, hcolon, hblanks⟩ := hS.colon
  have htext : S.memberText m ++ rest
      = '"' :: (m.1.toList.flatMap S.escape ++ '"' :: ':' :: (blanks ++ (S.text m.2 ++ rest))) := by
    rw [TextStyle.memberText, List.append_assoc, S.string_append, hcolon, List.append_assoc]
    rfl
  rw [htext, scanMember, if_pos rfl, hS.scanString_escape m.1.toList _ hsize]
  show (value (skipBlanks (blanks ++ (S.text m.2 ++ rest)))).map _ = _
  rw [skipBlanks_blanks hblanks, hopen.skipBlanks, hvalue]
  show some ((String.ofList m.1.toList, m.2), rest) = _
  rw [String.ofList_toList]

theorem StartsNumber.opens (h : StartsNumber cs) : Opens cs := by
  obtain ⟨d, ds, hd, rfl | rfl⟩ := h
  · refine ⟨d, ds, rfl, ?_, (ne_of_isDigit hd rfl).symm, (ne_of_isDigit hd rfl).symm⟩
    simp [isBlank, (ne_of_isDigit hd (show ' '.isDigit = false from rfl)).symm,
      (ne_of_isDigit hd (show '\t'.isDigit = false from rfl)).symm,
      (ne_of_isDigit hd (show '\n'.isDigit = false from rfl)).symm,
      (ne_of_isDigit hd (show '\r'.isDigit = false from rfl)).symm]
  · exact opens_cons (by decide) _

/-! ### Integers -/

theorem decimalDigit_eq {n : ℕ} (h : n < 10) : decimalDigit n = Nat.digitChar n := by
  have hall : ∀ k : Fin 10, decimalDigit k = Nat.digitChar k := by decide
  exact hall ⟨n, h⟩

theorem natText_eq (n : ℕ) : natText n = Nat.toDigits 10 n := by
  induction n using Nat.strong_induction_on with
  | _ n ih =>
    by_cases hlt : n < 10
    · rw [Nat.toDigits_of_lt_base hlt, ← decimalDigit_eq hlt]
      unfold natText
      split_ifs with hzero
      · rw [hzero]
        rfl
      · rw [Nat.digits_of_lt 10 n hzero hlt]
        rfl
    · have hquotient : n / 10 ≠ 0 := by omega
      have hstep : natText n = natText (n / 10) ++ [decimalDigit (n % 10)] := by
        unfold natText
        rw [if_neg (by omega), if_neg hquotient, Nat.digits_def' (by norm_num) (by omega),
          List.reverse_cons, List.map_append]
        rfl
      rw [hstep, ih (n / 10) (by omega), decimalDigit_eq (by omega),
        ← Nat.toDigits_of_base_le (by norm_num) (by omega)]

/-- The digits of a number other than zero start with another digit. -/
theorem exists_toDigits_cons {n : ℕ} (h : n ≠ 0) :
    ∃ d ds, Nat.toDigits 10 n = d :: ds ∧ d ≠ '0' := by
  induction n using Nat.strong_induction_on with
  | _ n ih =>
    by_cases hlt : n < 10
    · refine ⟨Nat.digitChar n, [], Nat.toDigits_of_lt_base hlt, ?_⟩
      have hall : ∀ k : Fin 10, k.val ≠ 0 → Nat.digitChar k ≠ '0' := by decide
      exact hall ⟨n, hlt⟩ h
    · obtain ⟨d, ds, hdigits, hd⟩ := ih (n / 10) (by omega) (by omega)
      refine ⟨d, ds ++ [Nat.digitChar (n % 10)], ?_, hd⟩
      rw [Nat.toDigits_of_base_le (by norm_num) (by omega), hdigits]
      rfl

theorem startsNumber_natText (n : ℕ) : ∃ d ds, natText n = d :: ds ∧ d.isDigit = true := by
  obtain ⟨d, ds, hdigits⟩ := List.exists_cons_of_ne_nil (Nat.toDigits_ne_nil (b := 10) (n := n))
  refine ⟨d, ds, by rw [natText_eq, hdigits], ?_⟩
  refine isDigit_of_mem_toDigits (n := n) d ?_
  rw [hdigits]
  exact List.mem_cons_self

theorem startsNumber_intText (n : ℤ) : StartsNumber (intText n) := by
  obtain ⟨d, ds, htext, hd⟩ := startsNumber_natText n.natAbs
  unfold intText
  rw [htext]
  split_ifs
  · exact ⟨d, ds, hd, .inr rfl⟩
  · exact ⟨d, ds, hd, .inl rfl⟩

/-! ### Values -/

variable {v : Json}

theorem opens_text (h : Every R.ReadsNode v) : Opens (S.text v) := by
  cases v with
  | null => exact opens_cons (by decide) _
  | bool b =>
    cases b with
    | false => exact opens_cons (by decide) _
    | true => exact opens_cons (by decide) _
  | int n => exact (startsNumber_intText n).opens
  | float x =>
    cases x with
    | finite t => exact h.1.opens
    | infinity => exact opens_cons (by decide) _
    | negInfinity => exact opens_cons (by decide) _
    | nan => exact opens_cons (by decide) _
  | str s => exact opens_cons (by decide) _
  | arr xs =>
    cases xs with
    | nil => exact opens_cons (by decide) _
    | cons x xs => exact opens_cons (by decide) _
  | obj ms =>
    cases ms with
    | nil => exact opens_cons (by decide) _
    | cons m ms => exact opens_cons (by decide) _

theorem TextStyle.Readable.length_le_tailText (hS : S.Readable) (close : Char)
    (ts : List (List Char)) :
    ts.length < (S.tailText close ts).length
      ∧ ∀ t ∈ ts, t.length < (S.tailText close ts).length := by
  obtain ⟨blanks, hcomma, -⟩ := hS.comma
  induction ts with
  | nil => exact ⟨Nat.zero_lt_one, fun t ht => absurd ht List.not_mem_nil⟩
  | cons t ts ih =>
    have hlength : (S.tailText close (t :: ts)).length
        = blanks.length + 1 + (t.length + (S.tailText close ts).length) := by
      rw [tailText, hcomma, List.length_append, List.length_cons, List.length_append]
    refine ⟨by rw [hlength, List.length_cons]; omega, ?_⟩
    intro u hu
    cases List.mem_cons.mp hu with
    | inl heq => subst heq; omega
    | inr hmem => have := ih.2 u hmem; omega

/-- A word is read back. -/
theorem Reader.value_keyword {w : List Char} (rest : List Char) (h : (w, v) ∈ keywords) :
    R.value size (depth + 1) (w ++ rest) = some (v, rest) := by
  simp only [keywords, List.mem_cons, Prod.mk.injEq, List.not_mem_nil, or_false] at h
  obtain ⟨rfl, rfl⟩ | ⟨rfl, rfl⟩ | ⟨rfl, rfl⟩ | ⟨rfl, rfl⟩ | ⟨rfl, rfl⟩ | ⟨rfl, rfl⟩ := h
  all_goals rfl

theorem length_text_pos (h : Every R.ReadsNode v) : 0 < (S.text v).length := by
  obtain ⟨c, cs, htext, -⟩ := opens_text (S := S) h
  rw [htext]
  exact Nat.succ_pos _

theorem TextStyle.text_arr (S : TextStyle) (x : Json) (xs : List Json) :
    S.text (.arr (x :: xs)) = '[' :: (S.text x ++ S.tailText ']' (xs.map S.text)) := by
  rw [text, S.itemsText_eq]

theorem TextStyle.text_obj (S : TextStyle) (m : String × Json) (ms : List (String × Json)) :
    S.text (.obj (m :: ms)) = '{' :: (S.memberText m ++ S.tailText '}' (ms.map S.memberText)) := by
  rw [text, S.membersText_eq, memberText]
  simp

theorem TextStyle.opens_memberText (S : TextStyle) (m : String × Json) : Opens (S.memberText m) :=
  opens_cons (by decide) _

theorem Opens.head_ne (h : Opens cs) (rest : List Char) :
    (cs ++ rest).head? ≠ some ']' ∧ (cs ++ rest).head? ≠ some '}' := by
  obtain ⟨c, ds, rfl, -, hbracket, hbrace⟩ := h
  exact ⟨by simpa using hbracket, by simpa using hbrace⟩

/-- An item is shorter than its array. -/
theorem TextStyle.Readable.length_lt_arr (hS : S.Readable) {xs : List Json} {y : Json}
    (hy : y ∈ xs) : (S.text y).length < (S.text (.arr xs)).length := by
  obtain ⟨x, xs, rfl⟩ := List.exists_cons_of_ne_nil (List.ne_nil_of_mem hy)
  have htail := hS.length_le_tailText ']' (xs.map S.text)
  rw [S.text_arr, List.length_cons, List.length_append]
  cases List.mem_cons.mp hy with
  | inl heq => subst heq; omega
  | inr hmem => have := htail.2 _ (List.mem_map_of_mem hmem); omega

variable {ms : List (String × Json)}

/-- The key and the value of a member are shorter than its object. -/
theorem TextStyle.Readable.length_lt_obj (hS : S.Readable) {n : String × Json} (hn : n ∈ ms) :
    (S.text n.2).length < (S.text (.obj ms)).length
      ∧ n.1.toList.length < (S.text (.obj ms)).length := by
  have hmember : (S.text n.2).length < (S.memberText n).length
      ∧ n.1.toList.length < (S.memberText n).length := by
    obtain ⟨blanks, hcolon, -⟩ := hS.colon
    have := hS.length_lt_string n.1
    rw [memberText, hcolon, List.length_append, List.length_append, List.length_cons]
    omega
  obtain ⟨m, ms, rfl⟩ := List.exists_cons_of_ne_nil (List.ne_nil_of_mem hn)
  have htail := hS.length_le_tailText '}' (ms.map S.memberText)
  rw [S.text_obj, List.length_cons, List.length_append]
  cases List.mem_cons.mp hn with
  | inl heq => subst heq; omega
  | inr hmem => have := htail.2 _ (List.mem_map_of_mem hmem); omega

/-- An array is read back when its items are. -/
theorem Reader.value_arr (hS : S.Readable) {xs : List Json} (hopen : ∀ y ∈ xs, Opens (S.text y))
    (hitem : ∀ y ∈ xs, ∀ rest, Delimited rest →
      R.value size depth (S.text y ++ rest) = some (y, rest))
    (hsize : (S.text (.arr xs)).length ≤ size) (rest : List Char) :
    R.value size (depth + 1) (S.text (.arr xs) ++ rest) = some (.arr xs, rest) := by
  cases xs with
  | nil => rfl
  | cons x xs =>
    have hopens := hopen x List.mem_cons_self
    have htail := (hS.length_le_tailText ']' (xs.map S.text)).1
    rw [List.length_map] at htail
    rw [S.text_arr, List.length_cons, List.length_append] at hsize
    rw [S.text_arr, List.cons_append, List.append_assoc, Reader.value, if_neg (by decide),
      if_pos rfl, hopens.skipBlanks, if_neg (hopens.head_ne _).1,
      scanList_text hS rfl rfl (by decide) hitem hopen (by omega)]
    rfl

/-- An object is read back when the values of its members are. -/
theorem Reader.value_obj (hS : S.Readable) (hobject : R.object ms = ms)
    (hopen : ∀ n ∈ ms, Opens (S.text n.2))
    (hvalue : ∀ n ∈ ms, ∀ rest, Delimited rest →
      R.value size depth (S.text n.2 ++ rest) = some (n.2, rest))
    (hsize : (S.text (.obj ms)).length ≤ size) (rest : List Char) :
    R.value size (depth + 1) (S.text (.obj ms) ++ rest) = some (.obj ms, rest) := by
  cases ms with
  | nil =>
    show some (Json.obj (R.object []), rest) = _
    rw [hobject]
  | cons m ms =>
    have hopens := S.opens_memberText m
    have hitem : ∀ n ∈ m :: ms, ∀ rest, Delimited rest →
        scanMember size (R.value size depth) (S.memberText n ++ rest) = some (n, rest) := by
      intro n hn rest' hrest'
      exact scanMember_text hS (hvalue n hn rest' hrest') (hopen n hn)
        (lt_of_lt_of_le (hS.length_lt_obj hn).2 hsize)
    have htail := (hS.length_le_tailText '}' (ms.map S.memberText)).1
    rw [List.length_map] at htail
    rw [S.text_obj, List.length_cons, List.length_append] at hsize
    rw [S.text_obj, List.cons_append, List.append_assoc, Reader.value, if_neg (by decide),
      if_neg (by decide), if_pos rfl, hopens.skipBlanks, if_neg (hopens.head_ne _).2,
      scanList_text hS rfl rfl (by decide) hitem (fun n _ => S.opens_memberText n) (by omega)]
    show some (Json.obj (R.object (m :: ms)), rest) = _
    rw [hobject]

/-- **A written value is read back**, and what follows it is left alone. -/
theorem Reader.value_text (hS : S.Readable) (hR : R.ReadsIntegers) (h : Every R.ReadsNode v)
    (hsize : (S.text v).length ≤ size) (hdepth : (S.text v).length ≤ depth) {rest : List Char}
    (hrest : Delimited rest) : R.value size depth (S.text v ++ rest) = some (v, rest) := by
  have hpos := length_text_pos (S := S) h
  obtain ⟨d, rfl⟩ := Nat.exists_eq_add_one.mpr (lt_of_lt_of_le hpos hdepth)
  induction v using Json.induction generalizing d rest with
  | null =>
    exact value_keyword (w := "null".toList) rest (by simp [keywords])
  | bool b =>
    cases b with
    | false => exact value_keyword (w := "false".toList) rest (by simp [keywords])
    | true => exact value_keyword (w := "true".toList) rest (by simp [keywords])
  | int n =>
    show R.value size (d + 1) (intText n ++ rest) = _
    rw [R.value_number (startsNumber_intText n), hR n rest hrest]
  | float x =>
    cases x with
    | finite t =>
      show R.value size (d + 1) (t.chars ++ rest) = _
      rw [R.value_number h.1, h.2 rest hrest]
    | infinity => exact value_keyword (w := "Infinity".toList) rest (by simp [keywords])
    | negInfinity => exact value_keyword (w := "-Infinity".toList) rest (by simp [keywords])
    | nan => exact value_keyword (w := "NaN".toList) rest (by simp [keywords])
  | str s =>
    exact value_string hS s rest hsize
  | arr xs ih =>
    have hevery := everyItem_iff.mp h.2
    refine value_arr hS (fun y hy => opens_text (hevery y hy)) ?_ hsize rest
    intro y hy rest' hrest'
    have hlength := hS.length_lt_arr hy
    have hpos' := length_text_pos (S := S) (hevery y hy)
    obtain ⟨e, rfl⟩ : ∃ e, d = e + 1 := ⟨d - 1, by omega⟩
    exact ih y hy (hevery y hy) (by omega) hrest' hpos' e (by omega)
  | obj ms ih =>
    have hevery := everyMember_iff.mp h.2
    refine value_obj hS h.1 (fun n hn => opens_text (hevery n hn)) ?_ hsize rest
    intro n hn rest' hrest'
    have hlength := (hS.length_lt_obj hn).1
    have hpos' := length_text_pos (S := S) (hevery n hn)
    obtain ⟨e, rfl⟩ : ∃ e, d = e + 1 := ⟨d - 1, by omega⟩
    exact ih n hn (hevery n hn) (by omega) hrest' hpos' e (by omega)

/-- A written document is read back. -/
theorem Reader.document_text (hS : S.Readable) (hR : R.ReadsIntegers) (h : Every R.ReadsNode v) :
    R.document (S.text v) = some v := by
  have hskip := (opens_text (S := S) h).skipBlanks []
  have hvalue : R.value ((S.text v).length + 1) ((S.text v).length + 1) (S.text v ++ [])
      = some (v, []) :=
    value_text hS hR h (Nat.le_succ _) (Nat.le_succ _) delimited_nil
  rw [List.append_nil] at hskip hvalue
  unfold Reader.document
  rw [hskip, hvalue]
  rfl

end ReadBack

/-! ### Numbers are read back -/

theorem Delimited.not_isDigit {rest : List Char} (h : Delimited rest) :
    ∀ c ∈ rest.head?, c.isDigit = false := by
  intro c hc
  have := h c hc
  simp only [isNumberChar, Bool.or_eq_false_iff] at this
  exact this.1.1.1.1.1

/-- A run of characters of one kind ends where the text goes on with something else. -/
theorem span_append {p : Char → Bool} {ds rest : List Char} (hds : ∀ d ∈ ds, p d = true)
    (hrest : ∀ c ∈ rest.head?, p c = false) :
    (ds ++ rest).takeWhile p = ds ∧ (ds ++ rest).dropWhile p = rest := by
  rw [List.takeWhile_append_of_pos hds, List.dropWhile_append_of_pos hds]
  cases rest with
  | nil => simp
  | cons c cs =>
    have hc := hrest c rfl
    rw [List.takeWhile_cons_of_neg (by simp [hc]), List.dropWhile_cons_of_neg (by simp [hc]),
      List.append_nil]
    exact ⟨rfl, rfl⟩

/-- Digits without a superfluous zero in front. -/
def plainDigits : List Char → Bool
  | '0' :: d :: _ => !d.isDigit
  | _ => true

theorem plainDigits_of_append {ds rest : List Char} (h : plainDigits (ds ++ rest) = true) :
    plainDigits ds = true := by
  unfold plainDigits
  split
  · exact h
  · rfl

theorem wholePart_digits {ds rest : List Char} (hne : ds ≠ []) (hds : ∀ d ∈ ds, d.isDigit = true)
    (hplain : plainDigits ds = true) (hrest : ∀ c ∈ rest.head?, c.isDigit = false) :
    wholePart (ds ++ rest) = some (ds, rest) := by
  obtain ⟨d, ds, rfl⟩ := List.exists_cons_of_ne_nil hne
  have hd := hds d List.mem_cons_self
  rw [List.cons_append, wholePart]
  by_cases hzero : d = '0'
  · subst hzero
    cases ds with
    | nil => rfl
    | cons e es =>
      have he := hds e (by simp)
      exact absurd hplain (by simp [plainDigits, he])
  · obtain ⟨htake, hdrop⟩ :=
      span_append (fun e he => hds e (List.mem_cons_of_mem _ he)) hrest
    rw [if_neg hzero, if_pos hd, htake, hdrop]

theorem Delimited.fractionPart {rest : List Char} (h : Delimited rest) :
    fractionPart rest = ([], rest) := by
  cases rest with
  | nil => rfl
  | cons c cs =>
    have hc : c ≠ '.' := by
      rintro rfl
      exact absurd (h '.' rfl) (by decide)
    unfold Application.fractionPart
    split
    · rename_i heq
      exact absurd (List.cons.inj heq).1 hc
    · rfl

theorem Delimited.exponentPart {rest : List Char} (h : Delimited rest) :
    exponentPart rest = ([], rest) := by
  cases rest with
  | nil => rfl
  | cons c cs =>
    have hc : ¬ (c = 'e' ∨ c = 'E') := by
      rintro (rfl | rfl)
      · exact absurd (h 'e' rfl) (by decide)
      · exact absurd (h 'E' rfl) (by decide)
    unfold Application.exponentPart
    exact if_neg hc

theorem natText_digits (n : ℕ) :
    natText n ≠ [] ∧ (∀ d ∈ natText n, d.isDigit = true) ∧ plainDigits (natText n) = true := by
  rw [natText_eq]
  refine ⟨Nat.toDigits_ne_nil, isDigit_of_mem_toDigits, ?_⟩
  by_cases hzero : n = 0
  · subst hzero
    rfl
  · obtain ⟨d, ds, hdigits, hd⟩ := exists_toDigits_cons hzero
    rw [hdigits]
    unfold plainDigits
    split
    · rename_i heq
      exact absurd (List.cons.inj heq).1 hd
    · rfl

/-! #### Float texts -/

/-- Some digits and nothing else. -/
def Digits (ds : List Char) : Prop := ds ≠ [] ∧ ∀ d ∈ ds, d.isDigit = true

/-- The fraction of a float text. -/
def IsFraction (cs : List Char) : Prop := cs = [] ∨ ∃ ds, Digits ds ∧ cs = '.' :: ds

/-- The exponent of a float text. -/
def IsExponent (cs : List Char) : Prop :=
  cs = [] ∨ ∃ sign ds, (sign = '+' ∨ sign = '-') ∧ Digits ds ∧ cs = 'e' :: sign :: ds

theorem isExponent_of_value {cs : List Char} (h : (exponentValue cs).isSome = true) :
    IsExponent cs := by
  unfold exponentValue at h
  split at h
  · exact .inl rfl
  · split_ifs at h with hds
    · exact .inr ⟨'+', _, .inl rfl, ⟨hds.1, List.all_eq_true.mp hds.2⟩, rfl⟩
    · exact absurd h (by simp)
  · split_ifs at h with hds
    · exact .inr ⟨'-', _, .inr rfl, ⟨hds.1, List.all_eq_true.mp hds.2⟩, rfl⟩
    · exact absurd h (by simp)
  · exact absurd h (by simp)

theorem digits_takeWhile {cs : List Char} (h : cs.takeWhile Char.isDigit ≠ []) :
    Digits (cs.takeWhile Char.isDigit) :=
  ⟨h, List.all_eq_true.mp List.all_takeWhile⟩

/-- A float text is made of digits, a fraction and an exponent, and has one of the latter two. -/
theorem unsignedValue_parts {cs : List Char} (h : (unsignedValue cs).isSome = true) :
    ∃ whole fraction exponent, cs = whole ++ (fraction ++ exponent) ∧ Digits whole
      ∧ IsFraction fraction ∧ IsExponent exponent ∧ ¬ (fraction = [] ∧ exponent = []) := by
  unfold unsignedValue at h
  dsimp only at h
  split_ifs at h with hwhole
  · exact absurd h (by simp)
  have hcs : cs = cs.takeWhile Char.isDigit ++ cs.dropWhile Char.isDigit :=
    List.takeWhile_append_dropWhile.symm
  split at h
  · rename_i rest hdrop
    split_ifs at h with hfraction
    · exact absurd h (by simp)
    rw [Option.isSome_map] at h
    refine ⟨_, '.' :: rest.takeWhile Char.isDigit, rest.dropWhile Char.isDigit, ?_,
      digits_takeWhile hwhole, .inr ⟨_, digits_takeWhile hfraction, rfl⟩, isExponent_of_value h,
      fun hempty => absurd hempty.1 (by simp)⟩
    rw [List.cons_append, List.takeWhile_append_dropWhile, ← hdrop]
    exact hcs
  · rename_i rest hdrop
    rw [Option.isSome_map] at h
    refine ⟨_, [], 'e' :: rest, ?_, digits_takeWhile hwhole, .inl rfl, isExponent_of_value h,
      fun hempty => absurd hempty.2 (by simp)⟩
    rw [List.nil_append, ← hdrop]
    exact hcs
  · exact absurd h (by simp)

theorem fractionPart_append {fraction rest : List Char} (h : IsFraction fraction)
    (hne : fraction = [] → rest.head? ≠ some '.')
    (hrest : ∀ c ∈ rest.head?, c.isDigit = false) :
    fractionPart (fraction ++ rest) = (fraction, rest) := by
  obtain rfl | ⟨ds, hds, rfl⟩ := h
  · rw [List.nil_append]
    unfold fractionPart
    split
    · exact absurd rfl (hne rfl)
    · rfl
  · obtain ⟨htake, hdrop⟩ := span_append hds.2 hrest
    show (if (ds ++ rest).takeWhile Char.isDigit = [] then ([], '.' :: (ds ++ rest))
      else ('.' :: (ds ++ rest).takeWhile Char.isDigit, (ds ++ rest).dropWhile Char.isDigit)) = _
    rw [htake, hdrop, if_neg hds.1]

theorem exponentPart_append {exponent rest : List Char} (h : IsExponent exponent)
    (hrest : Delimited rest) : exponentPart (exponent ++ rest) = (exponent, rest) := by
  obtain rfl | ⟨sign, ds, hsign, hds, rfl⟩ := h
  · exact hrest.exponentPart
  · obtain ⟨htake, hdrop⟩ := span_append hds.2 hrest.not_isDigit
    have hsigned : exponentSign (sign :: (ds ++ rest)) = (sign, ds ++ rest) := by
      obtain rfl | rfl := hsign
      · rfl
      · rfl
    rw [List.cons_append, List.cons_append, exponentPart, if_pos (.inl rfl)]
    simp only [hsigned, htake, hdrop, if_neg hds.1]

/-- What follows the digits of a float text is no digit. -/
theorem head_not_isDigit {fraction exponent rest : List Char} (hfraction : IsFraction fraction)
    (hexponent : IsExponent exponent) (hrest : Delimited rest) :
    ∀ c ∈ (fraction ++ (exponent ++ rest)).head?, c.isDigit = false := by
  obtain rfl | ⟨ds, -, rfl⟩ := hfraction
  · obtain rfl | ⟨sign, ds, -, -, rfl⟩ := hexponent
    · exact hrest.not_isDigit
    · intro c hc
      cases hc
      rfl
  · intro c hc
    cases hc
    rfl

section ReadNumbers

variable [FloatRepr]

theorem readUnsigned_natText (sign : List Char) (n : ℕ) {rest : List Char} (h : Delimited rest) :
    readUnsigned sign (natText n ++ rest)
      = some (.int (if sign = [] then n else -n), rest) := by
  obtain ⟨hne, hdigits, hplain⟩ := natText_digits n
  have hvalue : digitsValue (natText n) = n := by rw [natText_eq, digitsValue_toDigits]
  unfold readUnsigned
  rw [wholePart_digits hne hdigits hplain h.not_isDigit]
  simp only [Option.bind_eq_bind, Option.bind_some, h.fractionPart, h.exponentPart, and_self,
    if_true, hvalue]
  rfl

theorem jsonReader_readsIntegers : jsonReader.ReadsIntegers := by
  intro n rest hrest
  show readNumber (intText n ++ rest) = _
  unfold intText
  split_ifs with hneg
  · show readUnsigned ['-'] (natText n.natAbs ++ rest) = _
    rw [readUnsigned_natText _ _ hrest, if_neg (by simp)]
    congr 3
    omega
  · obtain ⟨d, ds, htext, hd⟩ := startsNumber_natText n.natAbs
    have hread : readNumber (natText n.natAbs ++ rest)
        = readUnsigned [] (natText n.natAbs ++ rest) := by
      rw [htext]
      unfold readNumber
      split
      · rename_i heq
        exact absurd (List.cons.inj heq).1.symm (ne_of_isDigit hd rfl)
      · rfl
    rw [hread, readUnsigned_natText _ _ hrest, if_pos rfl]
    congr 3
    omega

theorem readUnsigned_float (sign : List Char) {cs rest : List Char}
    (h : (unsignedValue cs).isSome = true) (hplain : plainDigits cs = true)
    (hrest : Delimited rest) :
    readUnsigned sign (cs ++ rest)
      = (floatOfText (sign ++ cs)).map fun x => (.float x, rest) := by
  obtain ⟨whole, fraction, exponent, rfl, hwhole, hfraction, hexponent, hne⟩ :=
    unsignedValue_parts h
  have hhead := head_not_isDigit hfraction hexponent hrest
  have hpoint : fraction = [] → (exponent ++ rest).head? ≠ some '.' := by
    intro hempty
    obtain rfl | ⟨e, ds, -, -, rfl⟩ := hexponent
    · exact absurd ⟨hempty, rfl⟩ hne
    · simp
  have hfracpart : fractionPart (fraction ++ (exponent ++ rest)) = (fraction, exponent ++ rest) :=
    fractionPart_append hfraction hpoint (head_not_isDigit (.inl rfl) hexponent hrest)
  have htext : whole ++ (fraction ++ exponent) ++ rest
      = whole ++ (fraction ++ (exponent ++ rest)) := by simp
  unfold readUnsigned
  rw [htext, wholePart_digits hwhole.1 hwhole.2 (plainDigits_of_append hplain) hhead]
  simp only [Option.bind_eq_bind, Option.bind_some, hfracpart, exponentPart_append hexponent hrest,
    if_neg hne, List.append_assoc]
  cases floatOfText (sign ++ (whole ++ (fraction ++ exponent))) with
  | none => rfl
  | some x => rfl

/-- The text of a float without its sign has no superfluous zero in front. -/
def plainText : List Char → Bool
  | '-' :: cs => plainDigits cs
  | cs => plainDigits cs

omit [FloatRepr] in
theorem plainDigits_of_plainText {cs : List Char} (hsign : ∀ ds, cs ≠ '-' :: ds)
    (h : plainText cs = true) : plainDigits cs = true := by
  unfold plainText at h
  split at h
  · exact absurd rfl (hsign _)
  · exact h

omit [FloatRepr] in
theorem startsNumber_of_digits {whole rest : List Char} (h : Digits whole) :
    ∃ d ds, whole ++ rest = d :: ds ∧ d.isDigit = true := by
  obtain ⟨d, ds, rfl⟩ := List.exists_cons_of_ne_nil h.1
  exact ⟨d, ds ++ rest, rfl, h.2 d List.mem_cons_self⟩

/-- A float text is read as the float it denotes. -/
theorem readNumber_float (t : FloatText) (hplain : plainText t.chars = true) {rest : List Char}
    (hrest : Delimited rest) :
    StartsNumber t.chars
      ∧ readNumber (t.chars ++ rest) = (floatOfText t.chars).map fun x => (.float x, rest) := by
  obtain ⟨cs, hvalue⟩ := t
  show StartsNumber cs ∧ readNumber (cs ++ rest) = (floatOfText cs).map _
  have hplain : plainText cs = true := hplain
  unfold floatTextValue at hvalue
  split at hvalue
  · rename_i cs
    rw [Option.isSome_map] at hvalue
    obtain ⟨whole, fraction, exponent, hcs, hwhole, -⟩ := unsignedValue_parts hvalue
    obtain ⟨d, ds, hstart, hd⟩ := startsNumber_of_digits hwhole
    exact ⟨⟨d, ds, hd, .inr (by rw [hcs, hstart])⟩, readUnsigned_float ['-'] hvalue hplain hrest⟩
  · rename_i hsign
    obtain ⟨whole, fraction, exponent, hcs, hwhole, -⟩ := unsignedValue_parts hvalue
    obtain ⟨d, ds, hstart, hd⟩ := startsNumber_of_digits hwhole
    have hcons : cs = d :: ds := by rw [hcs, hstart]
    have hread : readNumber (cs ++ rest) = readUnsigned [] (cs ++ rest) := by
      rw [hcons]
      unfold readNumber
      split
      · rename_i heq
        exact absurd (List.cons.inj heq).1.symm (ne_of_isDigit hd rfl)
      · rfl
    have hplain' : plainDigits cs = true := plainDigits_of_plainText hsign hplain
    exact ⟨⟨d, ds, hd, .inl hcons⟩, hread.trans (readUnsigned_float [] hvalue hplain' hrest)⟩

omit [FloatRepr] in
/-- Members with different keys are the dictionary of themselves. -/
theorem dictOf_eq {ms : List (String × Json)} (h : (ms.map Prod.fst).Nodup) : dictOf ms = ms := by
  have hstep : ∀ acc : JsonObject, ((acc ++ ms).map Prod.fst).Nodup →
      JsonObject.merge acc ms = acc ++ ms := by
    clear h
    induction ms with
    | nil =>
      intro acc _
      exact (List.append_nil acc).symm
    | cons m ms ih =>
      intro acc hnodup
      have hnew : acc.any (fun n => n.1 == m.1) = false := by
        rw [List.any_eq_false]
        intro n hn heq
        rw [List.map_append, List.map_cons] at hnodup
        exact (List.nodup_append.mp hnodup).2.2 n.1 (List.mem_map_of_mem hn) m.1
          List.mem_cons_self (by simpa using heq)
      have hset : JsonObject.set acc m.1 m.2 = acc ++ [m] := by
        unfold JsonObject.set
        rw [hnew]
        rfl
      show JsonObject.merge (JsonObject.set acc m.1 m.2) ms = _
      rw [hset, ih (acc ++ [m]) (by simpa using hnodup)]
      simp
  exact hstep [] h

/-! ### The values Python holds -/

/-- A value as Python holds it: a finite float is the one its text reads back to, written as a
number of a document is, and the keys of a dictionary are different. -/
def HeldNode : Json → Prop
  | .float (.finite t) => plainText t.chars = true ∧ floatOfText t.chars = some (.finite t)
  | .obj ms => (ms.map Prod.fst).Nodup
  | _ => True

/-- A value all of whose parts Python holds. -/
def Held (v : Json) : Prop := Every HeldNode v

omit [FloatRepr] in
theorem Every.imp {P Q : Json → Prop} (hPQ : ∀ v, P v → Q v) {v : Json} (h : Every P v) :
    Every Q v := by
  induction v using Json.induction with
  | arr xs ih =>
    exact ⟨hPQ _ h.1, everyItem_iff.mpr fun x hx => ih x hx (everyItem_iff.mp h.2 x hx)⟩
  | obj ms ih =>
    exact ⟨hPQ _ h.1, everyMember_iff.mpr fun m hm => ih m hm (everyMember_iff.mp h.2 m hm)⟩
  | _ => exact hPQ _ h

theorem readsNode_of_held {v : Json} (h : HeldNode v) : jsonReader.ReadsNode v := by
  cases v with
  | float x =>
    cases x with
    | finite t =>
      refine ⟨(readNumber_float t h.1 delimited_nil).1, ?_⟩
      intro rest hrest
      show readNumber (t.chars ++ rest) = _
      rw [(readNumber_float t h.1 hrest).2, h.2]
      rfl
    | _ => trivial
  | obj ms => exact dictOf_eq h
  | _ => trivial

/-- **`json.loads` inverts `json.dumps`** in every readable style. -/
theorem loads_text {S : TextStyle} (hS : S.Readable) {v : Json} (h : Held v) :
    loads (String.ofList (S.text v)) = .ok v := by
  have hread := Reader.document_text hS jsonReader_readsIntegers
    (Every.imp (fun _ => readsNode_of_held) h)
  unfold loads
  rw [String.toList_ofList, hread]

end ReadNumbers

/-! ### The styles -/

theorem head?_escapeChar (c : Char) : (escapeChar c).head? ≠ some '"' := by
  unfold escapeChar
  by_cases h : c = '"'
  · rw [if_pos h]
    decide
  · rw [if_neg h]
    repeat' split
    all_goals simp [h]

theorem head?_asciiEscape (c : Char) : (asciiEscape c).head? ≠ some '"' := by
  unfold asciiEscape
  split_ifs
  · exact head?_escapeChar c
  · simp
  · simp

theorem readable_defaultStyle : defaultStyle.Readable where
  scan := scanChar_asciiEscape
  unquoted := head?_asciiEscape
  comma := ⟨[' '], rfl, List.forall_mem_singleton.mpr rfl⟩
  colon := ⟨[' '], rfl, List.forall_mem_singleton.mpr rfl⟩

theorem readable_compactStyle : compactStyle.Readable where
  scan := scanChar_asciiEscape
  unquoted := head?_asciiEscape
  comma := ⟨[], rfl, List.forall_mem_nil _⟩
  colon := ⟨[], rfl, List.forall_mem_nil _⟩

theorem readable_unescapedStyle : unescapedStyle.Readable where
  scan := scanChar_escapeChar
  unquoted := head?_escapeChar
  comma := ⟨[], rfl, List.forall_mem_nil _⟩
  colon := ⟨[], rfl, List.forall_mem_nil _⟩

end AgentRuntime.Application
