import CosmosSdk.Lib.Calendar
import CosmosSdk.Lib.FixedWidth
import Mathlib.Data.List.TakeWhile

/-!
# Go's `time`: formatting and parsing by a layout

A time is its instant, in nanoseconds since 1970-01-01 UTC; read in UTC its fields are those of
the proleptic Gregorian calendar (`date`, `clock`, `nanosecond`), and `Date` counts them back.

A layout is taken as `nextStdChunk` cuts it: each element after the literal text before it,
and the text after the last one (`Layout`).  The elements are those of numeric layouts with
a fraction of zeros (`Std`).

* `Format`: each element as `AppendFormat` writes it, `appendInt` with its width and
  `formatNano`;
* `Parse`: `parse` with its loop (`parseChunks`), its switch on the element (`parseStd`),
  the readers it calls (`skip`, `getnum`, `atoi`, `leadingInt`, `parseNanoseconds`), the
  order in which it reports a field out of range before a failed read, and the check of
  the day against its month that ends it.

The lemmas read each element back from its text (`getnum_lowDigits`, `atoi_lowDigits`,
`parseNanoseconds_lowDigits`) and step `parseChunks` over an element read without error
(`parseChunks_cons_of_step`).
-/

namespace GoTime

open FixedWidth

/-- The bytes of an ASCII text. -/
def ascii (s : String) : List UInt8 := s.toList.map Char.toUInt8

/-! ### Times -/

/-- `t.Unix()`: the seconds since the epoch, rounded down. -/
def unix (t : ℤ) : ℤ := t / 10 ^ 9

/-- `t.Nanosecond()`: the nanoseconds within the second. -/
def nanosecond (t : ℤ) : ℤ := t % 10 ^ 9

/-- `t.Date()` in UTC: the year, the month and the day. -/
def date (t : ℤ) : ℤ × ℤ × ℤ := Calendar.civilFromDays (unix t / 86400)

/-- `t.Clock()` in UTC: the hour, the minute and the second. -/
def clock (t : ℤ) : ℤ × ℤ × ℤ :=
  let sec := unix t % 86400
  (sec / 3600, sec % 3600 / 60, sec % 60)

/-- `time.Date(year, month, day, hour, min, sec, nsec, time.UTC)`: the month normalised into
the year, and the other fields counted on from the first day of the month. -/
def Date (year month day hour min sec nsec : ℤ) : ℤ :=
  let year := year + (month - 1) / 12
  let month := (month - 1) % 12 + 1
  (Calendar.daysFromCivil year month day * 86400 + hour * 3600 + min * 60 + sec) * 10 ^ 9 + nsec

theorem unix_mul_add_nanosecond (t : ℤ) : unix t * 10 ^ 9 + nanosecond t = t := by
  unfold unix nanosecond
  omega

/-- A time is the `Date` of its fields. -/
theorem Date_date_clock (t : ℤ) :
    Date (date t).1 (date t).2.1 (date t).2.2 (clock t).1 (clock t).2.1 (clock t).2.2
      (nanosecond t) = t := by
  obtain ⟨hm1, hm12, -, -⟩ := Calendar.civilFromDays_valid (unix t / 86400)
  have hdays := Calendar.daysFromCivil_civilFromDays (unix t / 86400)
  have ht := unix_mul_add_nanosecond t
  unfold Date date clock
  dsimp only
  set c := Calendar.civilFromDays (unix t / 86400)
  -- a month of the year leaves the year as it is
  have hyear : c.1 + (c.2.1 - 1) / 12 = c.1 := by omega
  have hmonth : (c.2.1 - 1) % 12 + 1 = c.2.1 := by omega
  rw [hyear, hmonth, hdays]
  omega

/-! ### Layouts -/

/-- The layout elements `2006`, `01`, `02`, `15`, `04`, `05`, and `.` followed by `n` zeros. -/
inductive Std where
  | longYear
  | zeroMonth
  | zeroDay
  | hour
  | zeroMinute
  | zeroSecond
  | fracSecond0 (n : ℕ)
  deriving DecidableEq

/-- The text of a layout element (`stdstr`). -/
def Std.text : Std → List UInt8
  | .longYear => ascii "2006"
  | .zeroMonth => ascii "01"
  | .zeroDay => ascii "02"
  | .hour => ascii "15"
  | .zeroMinute => ascii "04"
  | .zeroSecond => ascii "05"
  | .fracSecond0 n => ascii "." ++ List.replicate n '0'.toUInt8

/-- Whether an element is a fraction of a second. -/
def Std.isFrac : Std → Bool
  | .fracSecond0 _ => true
  | _ => false

/-- A layout cut into its elements, each after the literal text before it, and the literal
text after the last. -/
structure Layout where
  chunks : List (List UInt8 × Std)
  suffix : List UInt8

/-! ### Format -/

/-- `appendInt(b, x, width)`: the sign of `x`, then its decimal digits padded with zeros to
`width` digits. -/
def appendInt (x : ℤ) (width : ℕ) : List UInt8 :=
  let digits := (Nat.toDigits 10 x.natAbs).map Char.toUInt8
  (if x < 0 then ascii "-" else []) ++ List.replicate (width - digits.length) '0'.toUInt8 ++ digits

/-- `formatNano(b, nanosec, n, false)`: a point and the first `n` of the nine digits of the
nanoseconds. -/
def formatNano (nanosec n : ℕ) : List UInt8 := '.'.toUInt8 :: (lowDigits 9 nanosec).take n

/-- The text of one layout element for the time `t`, as `AppendFormat` writes it. -/
def formatStd (t : ℤ) : Std → List UInt8
  | .longYear => appendInt (date t).1 4
  | .zeroMonth => appendInt (date t).2.1 2
  | .zeroDay => appendInt (date t).2.2 2
  | .hour => appendInt (clock t).1 2
  | .zeroMinute => appendInt (clock t).2.1 2
  | .zeroSecond => appendInt (clock t).2.2 2
  | .fracSecond0 n => formatNano (nanosecond t).toNat n

/-- `t.UTC().Format(layout)`. -/
def Format (layout : Layout) (t : ℤ) : List UInt8 :=
  layout.chunks.flatMap (fun chunk => chunk.1 ++ formatStd t chunk.2) ++ layout.suffix

/-! ### Parse -/

/-- `isDigit(s, i)`. -/
def isDigit (s : List UInt8) (i : ℕ) : Bool :=
  match s[i]? with
  | some c => IsDigitByte c
  | none => false

/-- `int(s[i] - '0')`. -/
def digitAt (s : List UInt8) (i : ℕ) : ℤ := ((s.getD i 0 - '0'.toUInt8).toNat : ℤ)

/-- `getnum(s, fixed)`: a number of one or two digits (two if `fixed`), the text after it, and
whether it failed (with `0` and the text unchanged). -/
def getnum (s : List UInt8) (fixed : Bool) : ℤ × List UInt8 × Bool :=
  if !isDigit s 0 then (0, s, true)
  else if !isDigit s 1 then
    if fixed then (0, s, true) else (digitAt s 0, s.drop 1, false)
  else (digitAt s 0 * 10 + digitAt s 1, s.drop 2, false)

/-- The loop of `leadingInt`: the leading digits accumulated into `x`, and the text after
them; `none` when the value leaves `int64`. -/
def leadingIntFrom : List UInt8 → ℕ → Option (ℕ × List UInt8)
  | [], x => some (x, [])
  | c :: s, x =>
    if c < '0'.toUInt8 ∨ c > '9'.toUInt8 then some (x, c :: s)
    else if x > (2 ^ 63 - 1) / 10 then none
    else if 2 ^ 63 ≤ x * 10 + (c.toNat - 48) then none
    else leadingIntFrom s (x * 10 + (c.toNat - 48))

/-- `leadingInt(s)`. -/
def leadingInt (s : List UInt8) : Option (ℕ × List UInt8) := leadingIntFrom s 0

/-- `atoi(s)`: an optional sign, then digits and nothing else. -/
def atoi (s : List UInt8) : Option ℤ :=
  let (neg, s) : Bool × List UInt8 :=
    match s with
    | c :: s' => if c = '-'.toUInt8 ∨ c = '+'.toUInt8 then (c = '-'.toUInt8, s') else (false, s)
    | [] => (false, [])
  match leadingInt s with
  | some (q, []) => some (if neg then -(q : ℤ) else q)
  | _ => none

/-- `parseNanoseconds(value, nbytes)`: a point and the digits up to `nbytes` bytes, scaled to
nanoseconds; the value, the field out of range, and whether it failed. -/
def parseNanoseconds (value : List UInt8) (nbytes : ℕ) : ℤ × Option String × Bool :=
  if value.head? ≠ some '.'.toUInt8 then (0, none, true)
  else
    match atoi ((value.take nbytes).drop 1) with
    | none => (0, none, true)
    | some ns =>
      if ns < 0 ∨ 10 ^ 9 ≤ ns then (ns, some "fractional second", false)
      else (ns * 10 ^ (10 - nbytes), none, false)

/-- `cutspace(s)`: the text after its leading spaces. -/
def cutspace (s : List UInt8) : List UInt8 := s.dropWhile (· == ' '.toUInt8)

/-- `skip(value, prefix)`: the value after the literal `prefix`, in which a space matches any
run of spaces, and whether it matched; the value is consumed up to the first mismatch. -/
def skip : List UInt8 → List UInt8 → List UInt8 × Bool
  | value, [] => (value, true)
  | value, p :: pre =>
    if p = ' '.toUInt8 then
      if value ≠ [] ∧ value.head? ≠ some ' '.toUInt8 then (value, false)
      else skip (cutspace value) (cutspace pre)
    else
      match value with
      | c :: value' => if c = p then skip value' pre else (value, false)
      | [] => ([], false)
termination_by _ pre => pre.length
decreasing_by
  · have := List.length_dropWhile_le (p := (· == ' '.toUInt8)) pre
    simp only [cutspace, List.length_cons]
    omega
  · simp

/-- The fields that `parse` fills, from their starting values. -/
structure Fields where
  year : ℤ := 0
  month : ℤ := 1
  day : ℤ := 1
  hour : ℤ := 0
  min : ℤ := 0
  sec : ℤ := 0
  nsec : ℤ := 0

/-- What one case of `parse`'s switch leaves: the fields, the text still to parse, the field
out of range (`rangeErrString`), and whether a read failed (`err`). -/
structure Step where
  fields : Fields
  value : List UInt8
  rangeErr : Option String
  err : Bool

/-- The case of `parse`'s switch for the element `std`, on the text `value`, with the element
after it `next`. -/
def parseStd (f : Fields) (value : List UInt8) (next : Option Std) : Std → Step
  | .longYear =>
    if value.length < 4 ∨ isDigit value 0 = false then ⟨f, value, none, true⟩
    else
      match atoi (value.take 4) with
      | some year => ⟨{ f with year }, value.drop 4, none, false⟩
      | none => ⟨{ f with year := 0 }, value.drop 4, none, true⟩
  | .zeroMonth =>
    let (month, value, err) := getnum value true
    ⟨{ f with month }, value, if month ≤ 0 ∨ 12 < month then some "month" else none, err⟩
  | .zeroDay =>
    let (day, value, err) := getnum value true
    ⟨{ f with day }, value, if day < 0 then some "day" else none, err⟩
  | .hour =>
    let (hour, value, err) := getnum value false
    ⟨{ f with hour }, value, if hour < 0 ∨ 24 ≤ hour then some "hour" else none, err⟩
  | .zeroMinute =>
    let (min, value, err) := getnum value true
    ⟨{ f with min }, value, if min < 0 ∨ 60 ≤ min then some "minute" else none, err⟩
  | .zeroSecond =>
    let (sec, value, err) := getnum value true
    if sec < 0 ∨ 60 ≤ sec then ⟨{ f with sec }, value, some "second", err⟩
    -- a fraction in the text where the layout has none is read with the seconds
    else if 2 ≤ value.length ∧ value.head? = some '.'.toUInt8 ∧ isDigit value 1 = true ∧
        next.any Std.isFrac = false then
      let n := 2 + ((value.drop 2).takeWhile IsDigitByte).length
      let (nsec, rangeErr, err) := parseNanoseconds value n
      ⟨{ f with sec, nsec }, value.drop n, rangeErr, err⟩
    else ⟨{ f with sec }, value, none, err⟩
  | .fracSecond0 n =>
    if value.length < 1 + n then ⟨f, value, none, true⟩
    else
      let (nsec, rangeErr, err) := parseNanoseconds value (1 + n)
      ⟨{ f with nsec }, value.drop (1 + n), rangeErr, err⟩

/-- A `*time.ParseError`: the layout element and the text at which parsing stopped, and the
message. -/
structure ParseError where
  layoutElem : List UInt8
  valueElem : List UInt8
  message : String

/-- The loop of `parse`: the literal text before each element, then the element; after the
last, the literal suffix and nothing more. -/
def parseChunks (suffix : List UInt8) :
    List (List UInt8 × Std) → Fields → List UInt8 → Except ParseError Fields
  | [], f, value =>
    match skip value suffix with
    | (value, false) => .error ⟨suffix, value, ""⟩
    | (value, true) => if value ≠ [] then .error ⟨[], value, ": extra text: "⟩ else .ok f
  | (pre, std) :: chunks, f, value =>
    match skip value pre with
    | (value, false) => .error ⟨pre, value, ""⟩
    | (value, true) =>
      let step := parseStd f value (chunks.head?.map Prod.snd) std
      match step.rangeErr with
      | some field => .error ⟨std.text, step.value, ": " ++ field ++ " out of range"⟩
      | none =>
        if step.err then .error ⟨std.text, step.value, ""⟩
        else parseChunks suffix chunks step.fields step.value

/-- `time.Parse(layout, value)`. -/
def Parse (layout : Layout) (value : List UInt8) : Except ParseError ℤ := do
  let f ← parseChunks layout.suffix layout.chunks {} value
  if f.day < 1 ∨ f.day > Calendar.daysIn f.month f.year then
    throw ⟨[], [], ": day out of range"⟩
  return Date f.year f.month f.day f.hour f.min f.sec f.nsec

/-! ### Writing a number -/

theorem appendInt_natCast (n w : ℕ) :
    appendInt n w = List.replicate (w - (Nat.toDigits 10 n).length) '0'.toUInt8 ++
      (Nat.toDigits 10 n).map Char.toUInt8 := by
  simp [appendInt]

/-- A number of at most `w + 1` digits is written in exactly `w + 1` digits. -/
theorem appendInt_eq_lowDigits : ∀ (w : ℕ) {n : ℕ}, n < 10 ^ (w + 1) →
    appendInt n (w + 1) = lowDigits (w + 1) n
  | w, n, hn => by
    rcases Nat.lt_or_ge n 10 with hlt | hge
    -- one digit, after `w` zeros
    · rw [appendInt_natCast, Nat.toDigits_of_lt_base hlt, lowDigits_succ, Nat.div_eq_of_lt hlt,
        Nat.mod_eq_of_lt hlt, lowDigits_zero]
      rfl
    -- the last digit after the digits of `n / 10`
    · match w with
      | 0 => omega
      | w + 1 =>
        have ih := appendInt_eq_lowDigits w (n := n / 10) (by rw [Nat.pow_succ] at hn; omega)
        rw [appendInt_natCast] at ih ⊢
        rw [Nat.toDigits_of_base_le (b := 10) (by decide) hge, lowDigits_succ, ← ih, List.length_append,
          List.map_append, ← List.append_assoc, List.length_singleton]
        congr 3
        omega

theorem appendInt_of_nonneg {w : ℕ} {v : ℤ} (hw : 0 < w) (h0 : 0 ≤ v) (h : v < 10 ^ w) :
    appendInt v w = lowDigits w v.toNat := by
  obtain ⟨w, rfl⟩ : ∃ w', w = w' + 1 := ⟨w - 1, by omega⟩
  have hv : v = (v.toNat : ℤ) := (Int.toNat_of_nonneg h0).symm
  have hpow : ((10 ^ (w + 1) : ℕ) : ℤ) = 10 ^ (w + 1) := by push_cast; rfl
  rw [hv, appendInt_eq_lowDigits w (by omega), Int.toNat_natCast]

/-- Nanoseconds are written in nine digits after the point. -/
theorem formatNano_nine (nanosec : ℕ) : formatNano nanosec 9 = '.'.toUInt8 :: lowDigits 9 nanosec := by
  rw [formatNano, List.take_of_length_le (by rw [length_lowDigits])]

/-! ### Reading a number -/

theorem toNat_digitByte_sub {d : ℕ} (h : d < 10) : (digitByte d - '0'.toUInt8).toNat = d := by
  have h48 : ('0'.toUInt8).toNat = 48 := by decide
  rw [UInt8.toNat_sub_of_le _ _ (by rw [UInt8.le_iff_toNat_le, h48, toNat_digitByte h]; omega),
    toNat_digitByte h, h48]
  omega

theorem lowDigits_two (v : ℕ) : lowDigits 2 v = [digitByte (v / 10 % 10), digitByte (v % 10)] := rfl

/-- Two digits read by `getnum`, fixed or not. -/
theorem getnum_lowDigits {v : ℕ} (hv : v < 100) (rest : List UInt8) (fixed : Bool) :
    getnum (lowDigits 2 v ++ rest) fixed = ((v : ℤ), rest, false) := by
  have h₁ : v / 10 % 10 < 10 := Nat.mod_lt _ (by decide)
  have h₂ : v % 10 < 10 := Nat.mod_lt _ (by decide)
  simp only [getnum, isDigit, digitAt, lowDigits_two, List.cons_append, List.getElem?_cons_zero,
    List.getElem?_cons_succ, isDigitByte_digitByte h₁, isDigitByte_digitByte h₂, List.getD_cons_zero,
    List.getD_cons_succ, toNat_digitByte_sub h₁, toNat_digitByte_sub h₂, List.drop_succ_cons,
    List.drop_zero, List.nil_append]
  simp only [Bool.not_true, Bool.false_eq_true, ↓reduceIte, Prod.mk.injEq, and_true]
  omega

/-- `leadingInt` reads digits whose value stays below `10 ^ 18`, so within `int64`. -/
theorem leadingIntFrom_digits : ∀ {l : List UInt8} {x : ℕ}, (∀ c ∈ l, IsDigitByte c = true) →
    (x + 1) * 10 ^ l.length ≤ 10 ^ 18 → leadingIntFrom l x = some (digitsFrom x l, [])
  | [], _, _, _ => rfl
  | c :: l, x, hl, hx => by
    have hc := hl c List.mem_cons_self
    simp only [IsDigitByte, Bool.and_eq_true, decide_eq_true_eq] at hc
    have hpow : 1 ≤ 10 ^ l.length := Nat.one_le_pow _ _ (by decide)
    have hc9 : c.toNat - 48 ≤ 9 := by
      have := UInt8.le_iff_toNat_le.1 hc.2
      simp only [UInt8.reduceToNat] at this
      omega
    -- the value so far, with the next digit, still leaves room for the rest
    have hx' : (x * 10 + (c.toNat - 48) + 1) * 10 ^ l.length ≤ 10 ^ 18 := by
      calc (x * 10 + (c.toNat - 48) + 1) * 10 ^ l.length ≤ (x + 1) * 10 * 10 ^ l.length :=
            Nat.mul_le_mul_right _ (by omega)
        _ = (x + 1) * 10 ^ (c :: l).length := by rw [List.length_cons, Nat.pow_succ']; ring
        _ ≤ 10 ^ 18 := hx
    have hsmall : (x + 1) * 10 ≤ 10 ^ 18 := le_trans (Nat.mul_le_mul_left _ (by
      rw [List.length_cons, Nat.pow_succ']; omega)) hx
    rw [leadingIntFrom, if_neg (by simp only [not_or, not_lt]; exact ⟨hc.1, hc.2⟩),
      if_neg (by omega), if_neg (by omega), leadingIntFrom_digits (fun d hd => hl d
        (List.mem_cons_of_mem c hd)) hx']
    rfl

/-- `atoi` reads up to eighteen digits. -/
theorem atoi_of_digits {l : List UInt8} (hl : ∀ c ∈ l, IsDigitByte c = true) (hlen : l.length ≤ 18) :
    atoi l = some (digitsFrom 0 l : ℤ) := by
  have hread := leadingIntFrom_digits (x := 0) hl (by
    rw [Nat.zero_add, Nat.one_mul]; exact Nat.pow_le_pow_right (by decide) hlen)
  cases l with
  | nil => rfl
  | cons c l =>
    -- a digit is no sign
    have hc := hl c List.mem_cons_self
    have hsign : ¬(c = '-'.toUInt8 ∨ c = '+'.toUInt8) := by
      rintro (rfl | rfl) <;> revert hc <;> decide
    simp only [atoi, hsign, if_false, leadingInt, hread]
    rfl

theorem atoi_lowDigits {w : ℕ} (n : ℕ) (hw : w ≤ 18) : atoi (lowDigits w n) = some ((n % 10 ^ w : ℕ) : ℤ) := by
  rw [atoi_of_digits isDigitByte_of_mem_lowDigits (by rw [length_lowDigits]; exact hw),
    digitsFrom_lowDigits]

/-- A point and nine digits read as nanoseconds. -/
theorem parseNanoseconds_lowDigits {ns : ℕ} (hns : ns < 10 ^ 9) (rest : List UInt8) :
    parseNanoseconds ('.'.toUInt8 :: lowDigits 9 ns ++ rest) 10 = ((ns : ℤ), none, false) := by
  have htake : ('.'.toUInt8 :: lowDigits 9 ns ++ rest).take 10 = '.'.toUInt8 :: lowDigits 9 ns := by
    rw [List.cons_append, List.take_succ_cons, List.take_left' (length_lowDigits 9 ns)]
  rw [parseNanoseconds, if_neg (by simp), htake, List.drop_one, List.tail_cons,
    atoi_lowDigits ns (by decide), Nat.mod_eq_of_lt hns]
  simp only [if_neg (show ¬((ns : ℤ) < 0 ∨ 10 ^ 9 ≤ (ns : ℤ)) by omega)]
  simp

theorem isDigit_lowDigits_append {w : ℕ} (hw : 0 < w) (n : ℕ) (rest : List UInt8) :
    isDigit (lowDigits w n ++ rest) 0 = true := by
  obtain ⟨c, l, hcl⟩ : ∃ c l, lowDigits w n = c :: l :=
    List.exists_cons_of_length_pos (by rw [length_lowDigits]; exact hw)
  rw [isDigit, hcl, List.cons_append, List.getElem?_cons_zero]
  exact isDigitByte_of_mem_lowDigits c (hcl ▸ List.mem_cons_self)

/-! ### The elements read back -/

section ReadBack

variable (f : Fields) (rest : List UInt8) (next : Option Std)

theorem parseStd_longYear {y : ℕ} (hy : y < 10 ^ 4) :
    parseStd f (lowDigits 4 y ++ rest) next .longYear = ⟨{ f with year := y }, rest, none, false⟩ := by
  have hlen : ¬((lowDigits 4 y ++ rest).length < 4 ∨ isDigit (lowDigits 4 y ++ rest) 0 = false) := by
    rw [isDigit_lowDigits_append (by decide)]
    simp
  rw [parseStd, if_neg hlen, List.take_left' (length_lowDigits 4 y), atoi_lowDigits y (by decide),
    Nat.mod_eq_of_lt hy, List.drop_left' (length_lowDigits 4 y)]

theorem parseStd_zeroMonth {m : ℕ} (h1 : 1 ≤ m) (h12 : m ≤ 12) :
    parseStd f (lowDigits 2 m ++ rest) next .zeroMonth = ⟨{ f with month := m }, rest, none, false⟩ := by
  simp only [parseStd, getnum_lowDigits (show m < 100 by omega)]
  rw [if_neg (by omega)]

theorem parseStd_zeroDay {d : ℕ} (hd : d < 100) :
    parseStd f (lowDigits 2 d ++ rest) next .zeroDay = ⟨{ f with day := d }, rest, none, false⟩ := by
  simp only [parseStd, getnum_lowDigits hd]
  rw [if_neg (by omega)]

theorem parseStd_hour {h : ℕ} (h24 : h < 24) :
    parseStd f (lowDigits 2 h ++ rest) next .hour = ⟨{ f with hour := h }, rest, none, false⟩ := by
  simp only [parseStd, getnum_lowDigits (show h < 100 by omega)]
  rw [if_neg (by omega)]

theorem parseStd_zeroMinute {m : ℕ} (h60 : m < 60) :
    parseStd f (lowDigits 2 m ++ rest) next .zeroMinute = ⟨{ f with min := m }, rest, none, false⟩ := by
  simp only [parseStd, getnum_lowDigits (show m < 100 by omega)]
  rw [if_neg (by omega)]

/-- The seconds, followed in the layout by a fraction, leave the text after them to it. -/
theorem parseStd_zeroSecond {s : ℕ} (h60 : s < 60) (hnext : next.any Std.isFrac = true) :
    parseStd f (lowDigits 2 s ++ rest) next .zeroSecond = ⟨{ f with sec := s }, rest, none, false⟩ := by
  simp only [parseStd, getnum_lowDigits (show s < 100 by omega), hnext]
  rw [if_neg (by omega)]
  simp

theorem parseStd_fracSecond0_nine {ns : ℕ} (hns : ns < 10 ^ 9) :
    parseStd f ('.'.toUInt8 :: lowDigits 9 ns ++ rest) next (.fracSecond0 9) =
      ⟨{ f with nsec := ns }, rest, none, false⟩ := by
  have hlen : ¬(('.'.toUInt8 :: lowDigits 9 ns ++ rest).length < 1 + 9) := by simp
  rw [parseStd, if_neg hlen]
  simp only [parseNanoseconds_lowDigits hns]
  rw [List.cons_append, show 1 + 9 = 9 + 1 by rfl, List.drop_succ_cons,
    List.drop_left' (length_lowDigits 9 ns)]

end ReadBack

/-! ### Literal text -/

theorem skip_nil (value : List UInt8) : skip value [] = (value, true) := by
  rw [skip]

/-- Literal text without spaces is skipped byte by byte. -/
theorem skip_append : ∀ {pre : List UInt8}, ' '.toUInt8 ∉ pre → ∀ rest, skip (pre ++ rest) pre = (rest, true)
  | [], _, rest => by simp [skip]
  | p :: pre, hp, rest => by
    have hp' : p ≠ ' '.toUInt8 := fun h => hp (h ▸ List.mem_cons_self)
    rw [List.cons_append, skip, if_neg hp']
    simp only [if_true]
    exact skip_append (fun h => hp (List.mem_cons_of_mem p h)) rest

/-! ### The loop of `parse` -/

/-- An element read without error passes its fields and the rest of the text to the next. -/
theorem parseChunks_cons_of_step {suffix pre : List UInt8} {std : Std} {chunks : List (List UInt8 × Std)}
    {f f' : Fields} {value value' rest : List UInt8} (hskip : skip value pre = (value', true))
    (hstep : parseStd f value' (chunks.head?.map Prod.snd) std = ⟨f', rest, none, false⟩) :
    parseChunks suffix ((pre, std) :: chunks) f value = parseChunks suffix chunks f' rest := by
  simp only [parseChunks, hskip, hstep]
  rfl

/-- The end of the layout: the suffix, and no text after it. -/
theorem parseChunks_nil {suffix value : List UInt8} {f : Fields} (hskip : skip value suffix = ([], true)) :
    parseChunks suffix [] f value = .ok f := by
  simp only [parseChunks, hskip]
  rfl

end GoTime
