import Mathlib
import DioptaseOS.Bcc.Lexer

/-!
# Integer literals: lexing

The numeric branch of `consume_literal` in `lexer.c`. A literal is hexadecimal when it starts
with `0x` or `0X` and a hexadecimal digit, and decimal otherwise; its digits are read by one
loop that checks, before each step `v = base * v + digit`, that the step does not overflow
32 bits, and rejects the literal if it would. At most two suffix characters follow, `u`/`U`
and `l`/`L` once each; an `l` rejects the literal. An unsuffixed literal up to `INT_MAX` is an
`INT_LIT`; a suffixed one is a `U_INT_LIT`, and so is a hexadecimal one above `INT_MAX`,
while a decimal one above `INT_MAX` is rejected.

`reject_long_literal` prints its message and exits: here it is the error of the result.

## Main definitions

* `digitLoop` — the two digit loops, with their base and digit test
* `suffixLoop`, `classifyLiteral` — the suffixes, and the token they give
* `lexNumber` — the numeric branch of `consume_literal`
* `digitsValue` — the exact value of a digit string

## Main results

* `overflowGuard_iff` — the guard holds exactly when the step overflows 32 bits
* `digitLoop_eq` — the loop returns the exact value of the digits, or rejects them when it
  exceeds `UINT_MAX`
* `lexNumber_exact` — the token, or the rejection, of every literal
-/

namespace DioptaseOS.Bcc

def uintMax : Nat := 0xFFFFFFFF

def intMax : Nat := 0x7FFFFFFF

/-- The message of `reject_long_literal` for a literal above 32 bits. -/
def msgWideLiteral : String := "bootstrap bcc only supports 32-bit integer literals"

/-- The message for an `l` or `L` suffix. -/
def msgLongLiteral : String := "bootstrap bcc does not support long integer literals"

/-- The message for an unsuffixed decimal literal above `INT_MAX`. -/
def msgDecimalLiteral : String :=
  "bootstrap bcc decimal literals above INT_MAX require unsupported long support"

/-- A token of an integer literal: `INT_LIT` with its `int_val`, `U_INT_LIT` with its
`uint_val`. -/
inductive LitToken
  | intLit (val : Nat)
  | uintLit (val : Nat)
  deriving DecidableEq, Repr

/-- `isdigit(c)`, with the value `c - '0'`. -/
def decimalDigit (c : Char) : Option Nat :=
  if c.isDigit then some (c.toNat - '0'.toNat) else none

/-- The digit loop of both branches: while the character is a digit, reject the literal when
`v > (UINT_MAX - digit) / base`, else `v = base * v + digit` in `unsigned`. The decimal loop
is a `do … while`, entered at a digit, so it is this loop too. -/
def digitLoop (base : Nat) (digit : Char → Option Nat) : List Char → Nat →
    Except String (Nat × List Char)
  | [], v => .ok (v, [])
  | c :: cs, v =>
    match digit c with
    | none => .ok (v, c :: cs)
    | some d =>
      if v > (uintMax - d) / base then .error msgWideLiteral
      else digitLoop base digit cs ((base * v + d) % 2 ^ 32)

/-- The test for a hexadecimal literal, `0x` or `0X` before a hexadecimal digit; the text
after the prefix. -/
def hexBody : List Char → Option (List Char)
  | z :: x :: c :: more =>
    if z = '0' ∧ (x = 'x' ∨ x = 'X') ∧ (hexDigitValue c).isSome then some (c :: more) else none
  | _ => none

/-- The digits of a literal: whether it is hexadecimal, its value and the text after it. -/
def scanDigits (cs : List Char) : Except String (Bool × Nat × List Char) :=
  match hexBody cs with
  | some body => (digitLoop 16 hexDigitValue body 0).map fun r => (true, r)
  | none => (digitLoop 10 decimalDigit cs 0).map fun r => (false, r)

/-- The suffix loop `for (int i = 0; i < 2; i++)`, with `fuel = 2 - i`: `saw_u`, `saw_l` and
the text after the suffixes. -/
def suffixLoop : Nat → Bool → Bool → List Char → Bool × Bool × List Char
  | 0, sawU, sawL, cs => (sawU, sawL, cs)
  | _ + 1, sawU, sawL, [] => (sawU, sawL, [])
  | n + 1, sawU, sawL, c :: cs =>
    if (c = 'u' ∨ c = 'U') ∧ sawU = false then suffixLoop n true sawL cs
    else if (c = 'l' ∨ c = 'L') ∧ sawL = false then suffixLoop n sawU true cs
    else (sawU, sawL, c :: cs)

/-- The token of a literal without an `l` suffix. -/
def classifyLiteral (isHex sawU : Bool) (v : Nat) : Except String LitToken :=
  if sawU then .ok (.uintLit v)
  else if isHex then
    if v ≤ intMax then .ok (.intLit v) else .ok (.uintLit v)
  else if v ≤ intMax then .ok (.intLit v)
  else .error msgDecimalLiteral

/-- The numeric branch of `consume_literal`, from a digit: the token and the text after it. -/
def lexNumber (cs : List Char) : Except String (LitToken × List Char) :=
  match scanDigits cs with
  | .error e => .error e
  | .ok (isHex, v, rest) =>
    match suffixLoop 2 false false rest with
    | (_, true, _) => .error msgLongLiteral
    | (sawU, false, rest) => (classifyLiteral isHex sawU v).map fun tok => (tok, rest)

/-- The exact value of a digit string, most significant digit first. -/
def digitsValue (base : Nat) (digit : Char → Option Nat) (ds : List Char) : Nat :=
  Nat.ofDigits base (ds.reverse.map fun c => (digit c).getD 0)

/-- A hexadecimal literal with a hexadecimal digit after its prefix. -/
example : lexNumber "0xFFFFFFFF;".toList = .ok (.uintLit 0xFFFFFFFF, [';']) := by decide

/-! ### The overflow guard -/

/-- The guard of the digit loop holds exactly when the step overflows 32 bits. -/
theorem overflowGuard_iff {base d : Nat} (v : Nat) (hbase : 0 < base) (hd : d ≤ uintMax) :
    v > (uintMax - d) / base ↔ base * v + d > uintMax := by
  rw [gt_iff_lt, Nat.div_lt_iff_lt_mul hbase]
  constructor <;> intro h
  · rw [Nat.mul_comm] at h; omega
  · rw [Nat.mul_comm]; omega

/-! ### The digit loop -/

section DigitLoop

variable {base : Nat} {digit : Char → Option Nat}

/-- Horner's rule from `v`: what the loop computes when no step overflows. -/
theorem foldl_horner_eq (ds : List Nat) (v : Nat) :
    ds.foldl (fun v d => base * v + d) v = v * base ^ ds.length + Nat.ofDigits base ds.reverse := by
  induction ds generalizing v with
  | nil => simp
  | cons d ds ih =>
    rw [List.foldl_cons, ih, List.reverse_cons, Nat.ofDigits_append, List.length_reverse,
      List.length_cons, Nat.ofDigits_singleton, Nat.pow_succ]
    ring

theorem le_foldl_horner (hbase : 0 < base) (ds : List Nat) (v : Nat) :
    v ≤ ds.foldl (fun v d => base * v + d) v := by
  induction ds generalizing v with
  | nil => exact Nat.le_refl v
  | cons d ds ih =>
    have : v ≤ base * v + d := by
      calc v = 1 * v := (Nat.one_mul v).symm
        _ ≤ base * v := Nat.mul_le_mul_right v hbase
        _ ≤ base * v + d := Nat.le_add_right _ _
    exact this.trans (ih _)

/-- Over digits and up to a character that is not one, the loop returns the exact value, or
rejects the literal when that value exceeds `UINT_MAX`. -/
theorem digitLoop_eq (hbase : 0 < base) (hdigit : ∀ c d, digit c = some d → d ≤ uintMax)
    {ds rest : List Char} (hds : ∀ c ∈ ds, (digit c).isSome)
    (hrest : ∀ c ∈ rest.head?, digit c = none) {v : Nat} (hv : v ≤ uintMax) :
    digitLoop base digit (ds ++ rest) v =
      let w := (ds.map fun c => (digit c).getD 0).foldl (fun v d => base * v + d) v
      if w > uintMax then .error msgWideLiteral else .ok (w, rest) := by
  induction ds generalizing v with
  | nil =>
    cases rest with
    | nil => simp [digitLoop, Nat.not_lt.mpr hv]
    | cons c cs => simp [digitLoop, hrest c rfl, Nat.not_lt.mpr hv]
  | cons c ds ih =>
    obtain ⟨d, hd⟩ := Option.isSome_iff_exists.mp (hds c List.mem_cons_self)
    have hds' : ∀ c ∈ ds, (digit c).isSome := fun c' hc' => hds c' (List.mem_cons_of_mem _ hc')
    simp only [List.cons_append, digitLoop, hd, List.map_cons, List.foldl_cons, Option.getD_some]
    by_cases hover : base * v + d > uintMax
    · -- the guard rejects the literal, whose value is at least this step's
      have hle := le_foldl_horner hbase (ds.map fun c => (digit c).getD 0) (base * v + d)
      rw [if_pos ((overflowGuard_iff v hbase (hdigit c d hd)).mpr hover), if_pos (by omega)]
    · have hlt : base * v + d < 2 ^ 32 := by unfold uintMax at hover; omega
      rw [if_neg (fun h => hover ((overflowGuard_iff v hbase (hdigit c d hd)).mp h)),
        Nat.mod_eq_of_lt hlt]
      exact ih hds' (Nat.le_of_not_lt hover)

/-- The value the loop computes from `0` is the exact value of the digits. -/
theorem foldl_digits_eq_digitsValue (ds : List Char) :
    (ds.map fun c => (digit c).getD 0).foldl (fun v d => base * v + d) 0 =
      digitsValue base digit ds := by
  rw [foldl_horner_eq, digitsValue, List.length_map, Nat.zero_mul, Nat.zero_add,
    List.map_reverse]

end DigitLoop

theorem char_le_iff {c d : Char} : c ≤ d ↔ c.toNat ≤ d.toNat :=
  Char.le_def.trans UInt32.le_iff_toNat_le

theorem hexDigitValue_lt {c : Char} {d : Nat} (h : hexDigitValue c = some d) : d < 16 := by
  unfold hexDigitValue at h
  simp only [char_le_iff, Char.reduceToNat] at h
  split_ifs at h <;> cases h <;> omega

theorem decimalDigit_lt {c : Char} {d : Nat} (h : decimalDigit c = some d) : d < 10 := by
  unfold decimalDigit at h
  simp only [Char.isDigit, Bool.and_eq_true, decide_eq_true_eq, ge_iff_le,
    UInt32.le_iff_toNat_le, Char.toNat_val, Char.reduceToNat] at h
  split_ifs at h with hc
  cases h
  omega

/-! ### The suffixes -/

/-- A character after a literal that is not a letter or a digit ends it. -/
def EndsLiteral (rest : List Char) : Prop := ∀ c ∈ rest.head?, c.isAlphanum = false

theorem hexDigitValue_of_not_alphanum {c : Char} (h : c.isAlphanum = false) :
    hexDigitValue c = none := by
  simp only [Char.isAlphanum, Char.isAlpha, Char.isUpper, Char.isLower, Char.isDigit,
    Bool.or_eq_false_iff, Bool.and_eq_false_iff, decide_eq_false_iff_not, ge_iff_le,
    UInt32.le_iff_toNat_le, Char.toNat_val, Char.reduceToNat] at h
  simp only [hexDigitValue, char_le_iff, Char.reduceToNat]
  -- every digit is a letter or a decimal digit
  split_ifs
  · omega
  · omega
  · omega
  · rfl

theorem decimalDigit_of_not_alphanum {c : Char} (h : c.isAlphanum = false) :
    decimalDigit c = none := by
  have : c.isDigit = false := by simp_all [Char.isAlphanum]
  simp [decimalDigit, this]

theorem suffixLoop_of_ends {rest : List Char} (hrest : EndsLiteral rest) (n : Nat) (sawU : Bool) :
    suffixLoop n sawU false rest = (sawU, false, rest) := by
  cases n with
  | zero => rfl
  | succ n =>
    cases rest with
    | nil => rfl
    | cons c cs =>
      have hc := hrest c rfl
      -- a letter is neither suffix
      have hu : ¬(c = 'u' ∨ c = 'U') := by rintro (rfl | rfl) <;> simp at hc
      have hl : ¬(c = 'l' ∨ c = 'L') := by rintro (rfl | rfl) <;> simp at hc
      simp [suffixLoop, hu, hl]

/-- An optional `u` or `U` suffix. -/
def USuffix (sfx : List Char) : Prop := sfx = [] ∨ sfx = ['u'] ∨ sfx = ['U']

theorem suffixLoop_uSuffix {sfx rest : List Char} (hsfx : USuffix sfx) (hrest : EndsLiteral rest) :
    suffixLoop 2 false false (sfx ++ rest) = (decide (sfx ≠ []), false, rest) := by
  rcases hsfx with rfl | rfl | rfl
  · simpa using suffixLoop_of_ends hrest 2 false
  · simpa [suffixLoop] using suffixLoop_of_ends hrest 1 true
  · simpa [suffixLoop] using suffixLoop_of_ends hrest 1 true

/-- After the digits comes a suffix or the end of the literal, neither of them a digit. -/
theorem head_not_digit {sfx rest : List Char} {digit : Char → Option Nat} (hsfx : USuffix sfx)
    (hrest : EndsLiteral rest) (hnot : ∀ c, c.isAlphanum = false → digit c = none)
    (hu : digit 'u' = none) (hU : digit 'U' = none) :
    ∀ c ∈ (sfx ++ rest).head?, digit c = none := by
  rcases hsfx with rfl | rfl | rfl
  · exact fun c hc => hnot c (hrest c hc)
  · simpa using hu
  · simpa using hU

/-! ### The whole literal -/

theorem hexBody_of_decimal {ds rest : List Char} (hds : ∀ c ∈ ds, c.isDigit) (hne : ds ≠ [])
    (hrest : ∀ c ∈ rest.head?, c ≠ 'x' ∧ c ≠ 'X') : hexBody (ds ++ rest) = none := by
  match ds, rest with
  | [], _ => exact absurd rfl hne
  | [_], [] => simp [hexBody]
  | [_], x :: more =>
    have hx := hrest x rfl
    cases more <;> simp [hexBody, hx.1, hx.2]
  | _ :: x :: ds', rest' =>
    -- a digit is not the `x` of a prefix
    have hx : x.isDigit := hds x (by simp)
    have hx' : x ≠ 'x' ∧ x ≠ 'X' := by
      constructor <;> rintro rfl <;> simp at hx
    cases ds' <;> cases rest' <;> simp [hexBody, hx'.1, hx'.2]

theorem lexNumber_of_scanDigits {cs rest sfx : List Char} {isHex : Bool} {v : Nat}
    (hscan : scanDigits cs = .ok (isHex, v, sfx ++ rest)) (hsfx : USuffix sfx)
    (hrest : EndsLiteral rest) :
    lexNumber cs = (classifyLiteral isHex (decide (sfx ≠ [])) v).map fun tok => (tok, rest) := by
  simp only [lexNumber, hscan, suffixLoop_uSuffix hsfx hrest]

theorem lexNumber_of_scanDigits_error {cs : List Char} {e : String}
    (hscan : scanDigits cs = .error e) : lexNumber cs = .error e := by
  simp only [lexNumber, hscan]

/-- The characters after the digits of a literal are not an `x` or `X`. -/
theorem head_ne_x {sfx rest : List Char} (hsfx : USuffix sfx) (hrest : EndsLiteral rest) :
    ∀ c ∈ (sfx ++ rest).head?, c ≠ 'x' ∧ c ≠ 'X' := by
  rcases hsfx with rfl | rfl | rfl
  · intro c hc
    have := hrest c hc
    constructor <;> rintro rfl <;> simp at this
  · simp
  · simp

/-- A decimal literal is scanned by the decimal loop. -/
theorem scanDigits_decimal {ds sfx rest : List Char} (hds : ∀ c ∈ ds, c.isDigit) (hne : ds ≠ [])
    (hsfx : USuffix sfx) (hrest : EndsLiteral rest) :
    scanDigits (ds ++ (sfx ++ rest)) =
      if digitsValue 10 decimalDigit ds > uintMax then .error msgWideLiteral
      else .ok (false, digitsValue 10 decimalDigit ds, sfx ++ rest) := by
  have hdig : ∀ c ∈ ds, (decimalDigit c).isSome := fun c hc => by simp [decimalDigit, hds c hc]
  have hloop := digitLoop_eq (show 0 < 10 by decide) (fun _ _ h => (decimalDigit_lt h).le.trans (by decide)) hdig
    (head_not_digit hsfx hrest (fun _ => decimalDigit_of_not_alphanum) rfl rfl) (Nat.zero_le _)
  rw [scanDigits, hexBody_of_decimal hds hne (head_ne_x hsfx hrest)]
  dsimp only
  rw [hloop]
  dsimp only
  rw [foldl_digits_eq_digitsValue]
  split_ifs <;> rfl

/-- A hexadecimal literal is scanned by the hexadecimal loop. -/
theorem scanDigits_hex {x : Char} {ds sfx rest : List Char} (hx : x = 'x' ∨ x = 'X')
    (hds : ∀ c ∈ ds, (hexDigitValue c).isSome) (hne : ds ≠ []) (hsfx : USuffix sfx)
    (hrest : EndsLiteral rest) :
    scanDigits ('0' :: x :: (ds ++ (sfx ++ rest))) =
      if digitsValue 16 hexDigitValue ds > uintMax then .error msgWideLiteral
      else .ok (true, digitsValue 16 hexDigitValue ds, sfx ++ rest) := by
  obtain ⟨c, ds', rfl⟩ := List.exists_cons_of_ne_nil hne
  have hbody : hexBody ('0' :: x :: (c :: ds' ++ (sfx ++ rest))) =
      some (c :: ds' ++ (sfx ++ rest)) := by
    simp [hexBody, hx, hds c List.mem_cons_self]
  have hloop := digitLoop_eq (show 0 < 16 by decide) (fun _ _ h => (hexDigitValue_lt h).le.trans (by decide)) hds
    (head_not_digit hsfx hrest (fun _ => hexDigitValue_of_not_alphanum) rfl rfl) (Nat.zero_le _)
  rw [scanDigits, hbody]
  dsimp only
  rw [hloop]
  dsimp only
  rw [foldl_digits_eq_digitsValue]
  split_ifs <;> rfl

theorem lexNumber_exact :
    ((∀ base ∈ [10, 16], ∀ v d, d < base →
        (v > (uintMax - d) / base ↔ base * v + d ≥ 2 ^ 32))) ∧
      (∀ ds sfx rest, USuffix sfx → EndsLiteral rest → ds ≠ [] → (∀ c ∈ ds, c.isDigit) →
        lexNumber (ds ++ sfx ++ rest) =
          if digitsValue 10 decimalDigit ds > uintMax then .error msgWideLiteral
          else if sfx = [] then
            if digitsValue 10 decimalDigit ds ≤ intMax then
              .ok (.intLit (digitsValue 10 decimalDigit ds), rest)
            else .error msgDecimalLiteral
          else .ok (.uintLit (digitsValue 10 decimalDigit ds), rest)) ∧
      (∀ x ds sfx rest, x = 'x' ∨ x = 'X' → USuffix sfx → EndsLiteral rest → ds ≠ [] →
        (∀ c ∈ ds, (hexDigitValue c).isSome) →
        lexNumber ('0' :: x :: ds ++ sfx ++ rest) =
          if digitsValue 16 hexDigitValue ds > uintMax then .error msgWideLiteral
          else if sfx = [] ∧ digitsValue 16 hexDigitValue ds ≤ intMax then
            .ok (.intLit (digitsValue 16 hexDigitValue ds), rest)
          else .ok (.uintLit (digitsValue 16 hexDigitValue ds), rest)) := by
  refine ⟨fun base hbase v d hd => ?_, fun ds sfx rest hsfx hrest hne hds => ?_,
    fun x ds sfx rest hx hsfx hrest hne hds => ?_⟩
  · have hbase' : base ≤ 16 := by simp at hbase; omega
    rw [overflowGuard_iff v (by omega) (by unfold uintMax; omega)]
    unfold uintMax
    omega
  · have hscan := scanDigits_decimal hds hne hsfx hrest
    rw [List.append_assoc]
    split_ifs at hscan ⊢ with hover hnil hint
    · exact lexNumber_of_scanDigits_error hscan
    all_goals rw [lexNumber_of_scanDigits hscan hsfx hrest]
    · simp [classifyLiteral, Except.map, hnil, hint]
    · simp [classifyLiteral, Except.map, hnil, hint]
    · simp [classifyLiteral, Except.map, hnil]
  · have hscan := scanDigits_hex hx hds hne hsfx hrest
    simp only [List.cons_append, List.append_assoc]
    split_ifs at hscan ⊢ with hover hsmall
    · exact lexNumber_of_scanDigits_error hscan
    all_goals rw [lexNumber_of_scanDigits hscan hsfx hrest]
    · simp [classifyLiteral, Except.map, hsmall.1, hsmall.2]
    · by_cases hnil : sfx = []
      · have hbig : ¬digitsValue 16 hexDigitValue ds ≤ intMax := fun h => hsmall ⟨hnil, h⟩
        simp [classifyLiteral, Except.map, hnil, hbig]
      · simp [classifyLiteral, Except.map, hnil]


/-- `4294967295u;` lexes, by the decimal case, to the largest `unsigned int` literal, and
`2147483648;` is rejected as too wide for an unsuffixed decimal. -/
theorem lexNumber_exact_at_limits :
    lexNumber (['4', '2', '9', '4', '9', '6', '7', '2', '9', '5'] ++ ['u'] ++ [';']) =
        .ok (.uintLit 4294967295, [';']) ∧
      lexNumber (['2', '1', '4', '7', '4', '8', '3', '6', '4', '8'] ++ [] ++ [';']) =
        .error msgDecimalLiteral := by
  have hrest : EndsLiteral [';'] := fun c hc => by
    rw [List.head?_cons, Option.mem_def, Option.some.injEq] at hc
    rw [← hc]
    rfl
  constructor
  · rw [lexNumber_exact.2.1 _ _ _ (.inr (.inl rfl)) hrest (List.cons_ne_nil _ _) (by simp [Char.isDigit])]
    decide
  · rw [lexNumber_exact.2.1 _ _ _ (.inl rfl) hrest (List.cons_ne_nil _ _) (by simp [Char.isDigit])]
    decide

end DioptaseOS.Bcc
