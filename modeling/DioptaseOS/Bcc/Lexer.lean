import Mathlib.Data.List.Basic

/-!
# String literals: lexing and decoding

The string branch of `consume_literal` in `lexer.c` and the decoding of the literal's body in
`parser.c`. The lexer scans from the character after the opening quote: it stops at a quote
whose previous character is not a backslash, rejects a newline and the end of the input, and
checks the character after each escaping backslash. The token's body is the text between the
quotes; `append_escaped_string` turns it into bytes, and `parse_string` concatenates the
bodies of adjacent literals.

The loop decides where the literal ends from the previous character, not from its own
`escaped` flag: after the escape `\\` the backslash before a quote is the escape's second
character, and the loop goes on past the quote that C takes as the end.

The source text is a list of characters, each standing for its byte; the end of the list is
the terminating NUL of the buffer.

## Main definitions

* `hexDigitValue`, `simpleEscapeByte` — the tables of the two files
* `scanString`, `lexString` — the string branch of `consume_literal`
* `cStringEnd` — where the C grammar ends a string literal
* `decodeHexLoop`, `appendEscaped`, `parseString` — the decoding

## Main results

* `scanString_last_ne_backslash` — the character before the quote that ends a literal is
  never a backslash
* `lexString_not_at_escaped_backslash` — a literal whose body ends with a backslash is never
  ended after that body
* `appendEscaped_nul_escape` — `\0` is one NUL byte, whatever digits follow it
-/

namespace DioptaseOS.Bcc

/-! ### Tables -/

/-- `hex_digit_value(c)`, with `none` for its `-1`. -/
def hexDigitValue (c : Char) : Option Nat :=
  if '0' ≤ c ∧ c ≤ '9' then some (c.toNat - '0'.toNat)
  else if 'a' ≤ c ∧ c ≤ 'f' then some (10 + (c.toNat - 'a'.toNat))
  else if 'A' ≤ c ∧ c ≤ 'F' then some (10 + (c.toNat - 'A'.toNat))
  else none

/-- The byte of the simple escape `\c`: the cases of the switches of both files other than
`x`. -/
def simpleEscapeByte (c : Char) : Option Nat :=
  match c with
  | '\'' => some 39
  | '"' => some 34
  | '?' => some 63
  | '\\' => some 92
  | 'a' => some 7
  | 'b' => some 8
  | 'f' => some 12
  | 'n' => some 10
  | 'r' => some 13
  | 't' => some 9
  | 'v' => some 11
  | '0' => some 0
  | _ => none

/-! ### Lexing -/

/-- The check the lexer makes at the character `c` after an escaping backslash, with `rest`
after it: a simple escape, or `x` followed by a hexadecimal digit. -/
def escapeAllowed (c : Char) (rest : List Char) : Bool :=
  (simpleEscapeByte c).isSome || (c == 'x' && (hexDigitValue (rest.headD '\x00')).isSome)

/-- The loop of the string branch of `consume_literal` at `cs`, with the character before it
and the escape flag: the body scanned and the text after the closing quote, or `none` for a
lexer error. -/
def scanString (prev : Char) (escaped : Bool) : List Char → Option (List Char × List Char)
  | [] => none
  | c :: rest =>
    if c = '\x00' then none
    -- the loop stops at a quote whose previous character is not a backslash
    else if c = '"' ∧ prev ≠ '\\' then some ([], rest)
    else if c = '\n' then none
    else if escaped ∧ !escapeAllowed c rest then none
    else (scanString c (!escaped && c == '\\') rest).map fun (body, after) => (c :: body, after)

/-- The string branch of `consume_literal` from the character after the opening quote: the
token's body and the text after it. -/
def lexString (cs : List Char) : Option (List Char × List Char) := scanString '"' false cs

/-- Where the C grammar ends a string literal: the body is a sequence of characters other
than a quote, a backslash and a newline, and of escape sequences, a backslash and one more
character; the first quote outside an escape sequence ends it. -/
def cStringEnd : List Char → Option (List Char × List Char)
  | [] => none
  | c :: rest =>
    if c = '"' then some ([], rest)
    else if c = '\n' then none
    else if c = '\\' then
      match rest with
      | [] => none
      | d :: rest =>
        if d = '\n' then none
        else (cStringEnd rest).map fun (body, after) => (c :: d :: body, after)
    else (cStringEnd rest).map fun (body, after) => (c :: body, after)

/-- The character before the quote that ends a literal, the opening quote for an empty body,
is never a backslash. The induction follows the scan. -/
theorem scanString_last_ne_backslash {prev : Char} {escaped : Bool} {cs body after : List Char}
    (h : scanString prev escaped cs = some (body, after)) :
    (prev :: body).getLast (List.cons_ne_nil _ _) ≠ '\\' := by
  induction cs generalizing prev escaped body with
  | nil => simp [scanString] at h
  | cons c rest ih =>
    simp only [scanString] at h
    split at h
    · cases h
    split at h
    · -- the closing quote
      rename_i hq
      cases h
      simpa using hq.2
    split at h
    · cases h
    split at h
    · cases h
    · -- the body goes on with `c`
      obtain ⟨⟨body', after'⟩, hrest, hbody⟩ := Option.map_eq_some_iff.mp h
      cases hbody
      have := ih hrest
      simpa [List.getLast_cons] using this

/-- A literal whose body ends with a backslash, as the C grammar allows for an escaped
backslash, is never ended right after that body: the lexer goes on past its closing
quote. -/
theorem lexString_not_at_escaped_backslash {w rest body after : List Char}
    (hw : w.getLast? = some '\\') (h : lexString (w ++ '"' :: rest) = some (body, after)) :
    body ≠ w := by
  rintro rfl
  have := scanString_last_ne_backslash h
  obtain ⟨w', c, rfl⟩ := (List.eq_nil_or_concat body).resolve_left (by rintro rfl; simp at hw)
  simp only [List.concat_eq_append, List.getLast?_append, List.getLast?_singleton,
    Option.some_or, Option.some.injEq] at hw
  subst hw
  simp at this

/-- `"\\"` followed by `;` and a newline: C ends the literal after the escaped backslash,
with the one-byte body `\\`; the lexer runs past the closing quote into the newline and
reports an error. -/
theorem lexString_escaped_backslash_error :
    cStringEnd ['\\', '\\', '"', ';', '\n'] = some (['\\', '\\'], [';', '\n']) ∧
      lexString ['\\', '\\', '"', ';', '\n'] = none := by
  decide

/-! ### Decoding -/

/-- The loop of `decode_hex_escape(digits, &consumed, &value)` over `cs` with the value and
the number of digits so far: the byte and the digits it took, or the digits read before it
failed (none, or a value above `0xff`). -/
def decodeHexLoop : List Char → Nat → Nat → Except Nat (Nat × Nat)
  | [], value, len => if len = 0 then .error len else .ok (value, len)
  | c :: rest, value, len =>
    match hexDigitValue c with
    | none => if len = 0 then .error len else .ok (value, len)
    | some d =>
      let next := value <<< 4 ||| d
      if next > 0xff then .error len else decodeHexLoop rest next (len + 1)

theorem decodeHexLoop_len_le {cs : List Char} {value len v n : Nat}
    (h : decodeHexLoop cs value len = .ok (v, n)) : n ≤ len + cs.length := by
  induction cs generalizing value len with
  | nil =>
    simp only [decodeHexLoop] at h
    split at h
    · cases h
    · cases h; simp
  | cons c rest ih =>
    simp only [decodeHexLoop] at h
    split at h
    · split at h
      · cases h
      · cases h; simp
    · split at h
      · cases h
      · have := ih h
        simp only [List.length_cons]
        omega

/-- `append_escaped_string` on a raw body: its bytes, or `none` where the parser stops with an
error. After a backslash at the end of the body it reads the closing quote that follows the
body in the source. -/
def appendEscaped : List Char → Option (List Nat)
  | [] => some []
  | c :: rest =>
    if c = '\\' then
      let e := rest.headD '"'
      if e = 'x' then
        match h : decodeHexLoop rest.tail 0 0 with
        | .ok (value, len) =>
          have : len ≤ rest.tail.length := by simpa using decodeHexLoop_len_le h
          (appendEscaped (rest.tail.drop len)).map (value :: ·)
        | .error _ => none
      else
        match simpleEscapeByte e with
        | some b => (appendEscaped rest.tail).map (b :: ·)
        | none => none
    else (appendEscaped rest).map (c.toNat :: ·)
termination_by cs => cs.length
decreasing_by
  all_goals simp only [List.length_drop, List.length_tail, List.length_cons]
  all_goals omega

/-- `parse_string`: the bodies of adjacent literals, each decoded, concatenated. -/
def parseString (bodies : List (List Char)) : Option (List Nat) :=
  (bodies.mapM appendEscaped).map List.flatten

/-- `\0` is one NUL byte whatever follows it, where C reads up to three octal digits: `"\01"`
is the bytes `0` and `'1'`, not the byte `1`. -/
theorem appendEscaped_nul_escape (rest : List Char) :
    appendEscaped ('\\' :: '0' :: rest) = (appendEscaped rest).map (0 :: ·) := by
  rw [appendEscaped]
  simp [simpleEscapeByte]

end DioptaseOS.Bcc
