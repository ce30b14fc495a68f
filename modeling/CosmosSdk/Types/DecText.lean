import CosmosSdk.Types.Dec
import CosmosSdk.Types.Result
import CosmosSdk.Lib.Decimal
import CosmosSdk.Lib.Outcome

/-!
# `sdk.Dec` as text

`Dec.String()` prints the mantissa's digits with a point before the last eighteen, padded to
`0.` and eighteen digits when it has fewer, after a minus sign for a negative value
(`Dec.toString`).  `NewDecFromStr` reads such text: a minus sign, an integer part, at most
eighteen digits after the point, padded with zeros to eighteen and read by
`big.Int.SetString(s, 10)` (`setStringBase10`).  JSON writes the text as a JSON string.

Every `Dec`, whatever its mantissa, is read back from its text (`NewDecFromStr_toString`),
and so from its JSON under a string codec that keeps its law
(`UnmarshalJSON_MarshalJSON`).  Go's `len` counts bytes; the model counts them with
`String.utf8Len`.  The padding is `fmt`'s `%0Ns` of the empty string, N zeros.

`NewDecFromStr` reads more than the documented `-?[0-9]+(\.[0-9]{1,18})?`
(`DocumentedDecimal`): after the minus sign it strips, the text goes to `SetString`, which reads
a sign of its own, so `+1`, `-+1`, `--1` and `+.5` are read too, and `--1` as `1`.  The text
it reads is exactly `AcceptedDecimal` (`NewDecFromStr_eq_ok_iff`).
-/

namespace CosmosSdk

open Decimal

/-- `big.Int.SetString(s, 10)`: an optional sign, then one decimal digit or more and nothing
else. -/
def setStringBase10 (s : List Char) : Option ℤ :=
  let (neg, ds) := match s with
    | '-' :: ds => (true, ds)
    | '+' :: ds => (false, ds)
    | ds => (false, ds)
  if ds ≠ [] ∧ ds.all Char.isDigit then
    let n : ℤ := Nat.ofDigitChars 10 ds 0
    some (if neg then -n else n)
  else none

/-- The sign `SetString` reads off text that starts with a digit: none. -/
theorem setStringBase10_sign {c : Char} {cs : List Char} (hminus : c ≠ '-') (hplus : c ≠ '+') :
    (match c :: cs with
      | '-' :: ds => (true, ds)
      | '+' :: ds => (false, ds)
      | ds => (false, ds)) = (false, c :: cs) := by
  split
  · rename_i h
    simp only [List.cons.injEq] at h
    exact absurd h.1 hminus
  · rename_i h
    simp only [List.cons.injEq] at h
    exact absurd h.1 hplus
  · rfl

/-- Digits without a sign are read as their value. -/
theorem setStringBase10_of_isDigit (ds : List Char) (hne : ds ≠ [])
    (h : ∀ c ∈ ds, c.isDigit = true) :
    setStringBase10 ds = some ((Nat.ofDigitChars 10 ds 0 : ℕ) : ℤ) := by
  obtain ⟨c, cs, rfl⟩ := List.exists_cons_of_ne_nil hne
  have hc := h c List.mem_cons_self
  have hminus : c ≠ '-' := fun hc' => by subst hc'; cases hc
  have hplus : c ≠ '+' := fun hc' => by subst hc'; cases hc
  unfold setStringBase10
  rw [setStringBase10_sign hminus hplus]
  simp [List.all_eq_true.2 h]

/-- Digits after a minus sign are read as the negated value. -/
theorem setStringBase10_minus (ds : List Char) (hne : ds ≠ [])
    (h : ∀ c ∈ ds, c.isDigit = true) :
    setStringBase10 ('-' :: ds) = some (-((Nat.ofDigitChars 10 ds 0 : ℕ) : ℤ)) := by
  unfold setStringBase10
  simp [List.all_eq_true.2 h, hne]

namespace Dec

/-- The part of `NewDecFromStr` after the sign: the parts around the point, the decimal places
checked and padded to eighteen, and the digits read as an integer. -/
def decStrToInt (s : List Char) : Except Error ℤ := do
  let strs := s.splitOn '.'
  let (lenDecs, combinedStr) ← match strs with
    | [intPart] => pure (0, intPart)
    | [intPart, decs] =>
      let lenDecs := String.utf8Len decs
      if lenDecs = 0 ∨ String.utf8Len intPart = 0 then throw (.ErrUnknownRequest "bad decimal length")
      else pure (lenDecs, intPart ++ decs)
    | _ => throw (.ErrUnknownRequest "too many periods to be a decimal string")
  if lenDecs > precision then
    throw (.ErrUnknownRequest ("too much precision, maximum " ++ ToString.toString precision ++
      ", len decimal " ++ ToString.toString lenDecs))
  -- add some extra zero's to correct to the Precision factor
  let combinedStr := combinedStr ++ List.replicate (precision - lenDecs) '0'
  match setStringBase10 combinedStr with
  | none => throw (.ErrUnknownRequest ("bad string to integer conversion, combinedStr: " ++
      String.ofList combinedStr))
  | some combined => pure combined

/-- `NewDecFromStr`. -/
def NewDecFromStr (str : String) : Except Error Dec := do
  let s := str.toList
  if s = [] then throw (.ErrUnknownRequest "decimal string is empty")
  -- first extract any negative symbol
  let (neg, s) := match s with
    | '-' :: rest => (true, rest)
    | s => (false, s)
  if s = [] then throw (.ErrUnknownRequest "decimal string is empty")
  let combined ← decStrToInt s
  pure ⟨if neg then -combined else combined⟩

/-- `Dec.MarshalJSON`: the text as a JSON string. -/
def MarshalJSON (json : JsonString) (d : Dec) : Bytes := json.Marshal d.toString

/-- `Dec.UnmarshalJSON`: a JSON string, read by `NewDecFromStr`; the error is the decoder's or
the parser's. -/
def UnmarshalJSON (json : JsonString) (bz : Bytes) : Except (String ⊕ Error) Dec := do
  let text ← (json.Unmarshal bz).mapError Sum.inl
  (NewDecFromStr text).mapError Sum.inr

/-! ### Reading the text back -/

/-- The text `Dec.String()` writes for the magnitude, before the sign. -/
def magnitudeText (n : ℕ) : List Char :=
  let bzInt := Nat.toDigits 10 n
  if bzInt.length ≤ precision then
    '0' :: '.' :: (List.replicate (precision - bzInt.length) '0' ++ bzInt)
  else
    bzInt.take (bzInt.length - precision) ++ '.' :: bzInt.drop (bzInt.length - precision)

theorem toString_toList (d : Dec) :
    d.toString.toList = (if d.i < 0 then ['-'] else []) ++ magnitudeText d.i.natAbs := by
  unfold toString magnitudeText
  rw [Nat.toString_eq_ofList_toDigits, String.toList_ofList]
  split_ifs <;> simp [String.toList_append]

/-- Digits, a point and at most eighteen digits are read as all the digits padded to
eighteen places. -/
theorem decStrToInt_of_digits (intPart decs : List Char) (hint : intPart ≠ []) (hdecs : decs ≠ [])
    (hi : ∀ c ∈ intPart, c.isDigit = true) (hd : ∀ c ∈ decs, c.isDigit = true)
    (hlen : decs.length ≤ precision) :
    decStrToInt (intPart ++ '.' :: decs) =
      .ok ((Nat.ofDigitChars 10 (intPart ++ decs ++ List.replicate (precision - decs.length) '0') 0 : ℕ) :
        ℤ) := by
  have hdot : ('.' : Char).isDigit = false := by decide
  have hsplit := splitOn_append_cons (not_mem_of_isDigit hdot hi) (not_mem_of_isDigit hdot hd)
  have hzero : ∀ c ∈ List.replicate (precision - decs.length) '0', c.isDigit = true := fun c hc => by
    rw [List.eq_of_mem_replicate hc]
    rfl
  have hread := setStringBase10_of_isDigit (intPart ++ decs ++ List.replicate (precision - decs.length) '0')
    (by simp [hint]) (fun c hc => by
      rcases List.mem_append.1 hc with hc | hc
      · rcases List.mem_append.1 hc with hc | hc
        · exact hi c hc
        · exact hd c hc
      · exact hzero c hc)
  have hshort : ¬precision < decs.length := Nat.not_lt.2 hlen
  have hnonempty : ¬(decs.length = 0 ∨ intPart.length = 0) := by
    simp [hint, hdecs]
  unfold decStrToInt
  simp only [hsplit, utf8Len_of_isDigit hd, utf8Len_of_isDigit hi, if_neg hnonempty, gt_iff_lt,
    if_neg hshort, hread, Except.ok_bind, Except.pure_eq_ok]

/-- The two layouts of the magnitude are both read back as it. -/
theorem decStrToInt_magnitudeText (n : ℕ) : decStrToInt (magnitudeText n) = .ok n := by
  have hdigits : ∀ c ∈ Nat.toDigits 10 n, c.isDigit = true := isDigit_of_mem_toDigits
  have hlen := Nat.length_toDigits_pos (b := 10) (n := n)
  unfold magnitudeText
  dsimp only
  split_ifs with hshort
  · -- `0.` and eighteen digits: the zeros in front add nothing
    have hdecs : ∀ c ∈ List.replicate (precision - (Nat.toDigits 10 n).length) '0' ++
        Nat.toDigits 10 n, c.isDigit = true := by
      intro c hc
      rcases List.mem_append.1 hc with hc | hc
      · rw [List.eq_of_mem_replicate hc]
        rfl
      · exact hdigits c hc
    have hread := decStrToInt_of_digits ['0'] _ (by simp) (by simp) (List.forall_mem_singleton.2 rfl)
      hdecs
      (by simp only [List.length_append, List.length_replicate]; omega)
    have hpad : ['0'] ++ (List.replicate (precision - (Nat.toDigits 10 n).length) '0' ++
        Nat.toDigits 10 n) ++ List.replicate (precision - (List.replicate (precision -
        (Nat.toDigits 10 n).length) '0' ++ Nat.toDigits 10 n).length) '0' =
        List.replicate (precision - (Nat.toDigits 10 n).length + 1) '0' ++ Nat.toDigits 10 n := by
      simp only [List.length_append, List.length_replicate,
        show precision - (Nat.toDigits 10 n).length + (Nat.toDigits 10 n).length = precision by omega,
        Nat.sub_self, List.replicate_zero, List.append_nil, List.replicate_succ, List.cons_append,
        List.nil_append]
    rw [List.singleton_append] at hread
    rw [hread, hpad, ofDigitChars_replicate_zero_append, Nat.ofDigitChars_ten_toDigits]
  · -- a point before the last eighteen digits
    have hk : 0 < (Nat.toDigits 10 n).length - precision := by omega
    have hprec : 0 < precision := by decide
    have hread := decStrToInt_of_digits
      ((Nat.toDigits 10 n).take ((Nat.toDigits 10 n).length - precision))
      ((Nat.toDigits 10 n).drop ((Nat.toDigits 10 n).length - precision))
      (List.ne_nil_of_length_pos (by rw [List.length_take]; omega))
      (List.ne_nil_of_length_pos (by rw [List.length_drop]; omega))
      (fun c hc => hdigits c (List.mem_of_mem_take hc))
      (fun c hc => hdigits c (List.mem_of_mem_drop hc)) (by rw [List.length_drop]; omega)
    have hdrop : ((Nat.toDigits 10 n).drop ((Nat.toDigits 10 n).length - precision)).length =
        precision := by
      simp only [List.length_drop]
      omega
    rw [hread, hdrop, Nat.sub_self, List.replicate_zero, List.append_nil, List.take_append_drop,
      Nat.ofDigitChars_ten_toDigits]

/-- The text of a magnitude starts with a digit. -/
theorem magnitudeText_ne_minus (n : ℕ) : ∃ c rest, magnitudeText n = c :: rest ∧ c ≠ '-' := by
  unfold magnitudeText
  dsimp only
  split_ifs with hshort
  · exact ⟨'0', _, rfl, by decide⟩
  · obtain ⟨c, rest, hcons⟩ := List.exists_cons_of_ne_nil (Nat.toDigits_ne_nil (b := 10) (n := n))
    have hc : c.isDigit = true := isDigit_of_mem_toDigits c (hcons ▸ List.mem_cons_self)
    have hk : 0 < (Nat.toDigits 10 n).length - precision := by omega
    have htake : ∀ k, 0 < k → (Nat.toDigits 10 n).take k = c :: rest.take (k - 1) := fun k hk => by
      rw [hcons, List.take_cons hk]
    refine ⟨c, rest.take ((Nat.toDigits 10 n).length - precision - 1) ++
      '.' :: (Nat.toDigits 10 n).drop ((Nat.toDigits 10 n).length - precision), ?_, ?_⟩
    · rw [htake _ hk, List.cons_append]
    · rintro rfl
      cases hc

/-- The sign `NewDecFromStr` strips off text that starts with another character: none. -/
theorem minus_of_ne {c : Char} {cs : List Char} (hc : c ≠ '-') :
    (match c :: cs with
      | '-' :: rest => (true, rest)
      | s => (false, s)) = (false, c :: cs) := by
  split
  · rename_i h
    simp only [List.cons.injEq] at h
    exact absurd h.1 hc
  · rfl

/-- Every `Dec` is read back from its text. -/
theorem NewDecFromStr_toString (d : Dec) : NewDecFromStr d.toString = .ok d := by
  obtain ⟨i⟩ := d
  obtain ⟨c, rest, htext, hc⟩ := magnitudeText_ne_minus i.natAbs
  have hread := decStrToInt_magnitudeText i.natAbs
  rw [htext] at hread
  unfold NewDecFromStr
  rw [toString_toList, htext]
  by_cases hneg : i < 0
  · -- the sign is stripped, and the magnitude negated back
    simp [hneg, hread, abs_of_neg hneg]
  · have hi : (i.natAbs : ℤ) = i := by omega
    simp only [hneg, if_false, List.nil_append]
    rw [minus_of_ne hc]
    simp [hread, hi]

/-- Every `Dec` is read back from its JSON. -/
theorem UnmarshalJSON_MarshalJSON {json : JsonString} (hjson : json.Lawful) (d : Dec) :
    UnmarshalJSON json (MarshalJSON json d) = .ok d := by
  simp [UnmarshalJSON, MarshalJSON, hjson d.toString, NewDecFromStr_toString]

theorem toString_round_trip (d : Dec) :
    NewDecFromStr d.toString = .ok d ∧
      ∀ json : JsonString, json.Lawful → UnmarshalJSON json (MarshalJSON json d) = .ok d :=
  ⟨NewDecFromStr_toString d, fun _ hjson => UnmarshalJSON_MarshalJSON hjson d⟩

theorem toString_round_trip_utf8 :
    UnmarshalJSON JsonString.utf8 (MarshalJSON JsonString.utf8 ⟨-1500000000000000000⟩) =
      .ok ⟨-1500000000000000000⟩ :=
  (toString_round_trip ⟨-1500000000000000000⟩).2 JsonString.utf8 JsonString.utf8_lawful

/-! ### The text `NewDecFromStr` accepts -/

/-- `x`, negated when `neg` holds. -/
def negIf (neg : Bool) (x : ℤ) : ℤ := if neg then -x else x

/-- A minus sign, or nothing. -/
def minusIf (neg : Bool) : List Char := if neg then ['-'] else []

/-- A point before the decimal places, or nothing when there are none. -/
def pointIf (fs : List Char) : List Char := if fs = [] then [] else '.' :: fs

/-- The signs `SetString` reads before the digits: none, a plus or a minus. -/
def IsSetStringSign (sign : List Char) : Prop := sign = [] ∨ sign = ['+'] ∨ sign = ['-']

/-- The value of the integer digits `ds` and the decimal places `fs`, scaled by `10^18`. -/
def scaledValue (ds fs : List Char) : ℕ :=
  Nat.ofDigitChars 10 ds 0 * 10 ^ precision + Nat.ofDigitChars 10 fs 0 * 10 ^ (precision - fs.length)

/-- The documented grammar `-?[0-9]+(\.[0-9]{1,18})?`, with the value of the text scaled by
`10^18`. -/
def DocumentedDecimal (s : List Char) (v : ℤ) : Prop :=
  ∃ (neg : Bool) (ds fs : List Char), s = minusIf neg ++ ds ++ pointIf fs ∧ ds ≠ [] ∧
    (∀ c ∈ ds, c.isDigit = true) ∧ (∀ c ∈ fs, c.isDigit = true) ∧ fs.length ≤ precision ∧
    v = negIf neg (scaledValue ds fs)

/-- What `NewDecFromStr` reads: the minus sign it strips, the sign that `SetString` reads after
it (a minus only after the first), integer digits and at most eighteen places after a point,
with a sign or a digit before the point.  Each minus negates the value. -/
def AcceptedDecimal (s : List Char) (v : ℤ) : Prop :=
  ∃ (neg : Bool) (sign ds fs : List Char), s = minusIf neg ++ sign ++ ds ++ pointIf fs ∧
    IsSetStringSign sign ∧ (sign = ['-'] → neg = true) ∧ sign ++ ds ≠ [] ∧
    (∀ c ∈ ds, c.isDigit = true) ∧ (∀ c ∈ fs, c.isDigit = true) ∧ fs.length ≤ precision ∧
    v = negIf neg (negIf (sign == ['-']) (scaledValue ds fs))

/-- Text of the documented grammar is accepted, with its value. -/
theorem DocumentedDecimal.accepted {s : List Char} {v : ℤ} (h : DocumentedDecimal s v) :
    AcceptedDecimal s v := by
  obtain ⟨neg, ds, fs, hs, hne, hds, hfs, hlen, hv⟩ := h
  refine ⟨neg, [], ds, fs, ?_, .inl rfl, (fun h => by cases h), ?_, hds, hfs, hlen, ?_⟩
  · rw [hs, List.append_nil]
  · rwa [List.nil_append]
  · rw [hv]
    rfl

/-- Digits padded to eighteen places are the value scaled by `10^18`. -/
theorem ofDigitChars_pad (ds fs : List Char) (hlen : fs.length ≤ precision) :
    Nat.ofDigitChars 10 (ds ++ fs ++ List.replicate (precision - fs.length) '0') 0 =
      scaledValue ds fs := by
  have hpow : 10 ^ (precision - fs.length) * 10 ^ fs.length = 10 ^ precision := by
    rw [← Nat.pow_add, Nat.sub_add_cancel hlen]
  rw [Nat.ofDigitChars_append, Nat.ofDigitChars_replicate_zero, Nat.ofDigitChars_append,
    Nat.ofDigitChars_eq_ofDigitChars_zero (l := fs), Nat.mul_add, ← Nat.mul_assoc, hpow, scaledValue,
    Nat.mul_comm, Nat.mul_comm (10 ^ (precision - fs.length))]

theorem setStringBase10_plus (ds : List Char) (hne : ds ≠ [])
    (h : ∀ c ∈ ds, c.isDigit = true) :
    setStringBase10 ('+' :: ds) = some ((Nat.ofDigitChars 10 ds 0 : ℕ) : ℤ) := by
  unfold setStringBase10
  simp [List.all_eq_true.2 h, hne]

/-- A sign that `SetString` reads, then digits, are read as the signed value. -/
theorem setStringBase10_sign_append {sign ds : List Char} (hsign : IsSetStringSign sign)
    (hne : ds ≠ []) (h : ∀ c ∈ ds, c.isDigit = true) :
    setStringBase10 (sign ++ ds) = some (negIf (sign == ['-']) (Nat.ofDigitChars 10 ds 0)) := by
  rcases hsign with rfl | rfl | rfl
  · rw [List.nil_append, setStringBase10_of_isDigit ds hne h]
    rfl
  · rw [List.singleton_append, setStringBase10_plus ds hne h]
    rfl
  · rw [List.singleton_append, setStringBase10_minus ds hne h]
    rfl

/-- The digit check of `SetString`, on the text after the sign. -/
theorem digits_of_ite_eq_some {ds : List Char} {y x : ℤ}
    (h : (if ds ≠ [] ∧ ds.all Char.isDigit = true then some y else none) = some x) :
    ds ≠ [] ∧ (∀ c ∈ ds, c.isDigit = true) ∧ x = y := by
  split_ifs at h with hds
  · cases h
    exact ⟨hds.1, List.all_eq_true.1 hds.2, rfl⟩

/-- What `SetString` reads is an optional sign and digits. -/
theorem setStringBase10_eq_some {s : List Char} {x : ℤ} (h : setStringBase10 s = some x) :
    ∃ sign ds, s = sign ++ ds ∧ IsSetStringSign sign ∧ ds ≠ [] ∧ (∀ c ∈ ds, c.isDigit = true) ∧
      x = negIf (sign == ['-']) (Nat.ofDigitChars 10 ds 0) := by
  unfold setStringBase10 at h
  -- the sign and the digits that the match on the first character returns
  split at h
  rename_i neg ds hsplit
  obtain ⟨hne, hds, rfl⟩ := digits_of_ite_eq_some h
  split at hsplit
  · cases hsplit
    exact ⟨['-'], _, rfl, .inr (.inr rfl), hne, hds, rfl⟩
  · cases hsplit
    exact ⟨['+'], _, rfl, .inr (.inl rfl), hne, hds, rfl⟩
  · cases hsplit
    exact ⟨[], _, rfl, .inl rfl, hne, hds, rfl⟩

/-- Digits after a sign, with the places padded to eighteen, are read as the signed scaled
value. -/
theorem setStringBase10_pad {sign ds fs : List Char} (hsign : IsSetStringSign sign)
    (hds : ∀ c ∈ ds, c.isDigit = true) (hfs : ∀ c ∈ fs, c.isDigit = true)
    (hlen : fs.length ≤ precision) :
    setStringBase10 (sign ++ ds ++ fs ++ List.replicate (precision - fs.length) '0') =
      some (negIf (sign == ['-']) (scaledValue ds fs)) := by
  -- the places, or else the zeros, make the digits nonempty
  have hne : ds ++ fs ++ List.replicate (precision - fs.length) '0' ≠ [] := by
    intro h
    have hlength := congrArg List.length h
    have hprec : 0 < precision := by decide
    simp only [List.length_append, List.length_replicate, List.length_nil] at hlength
    omega
  have hdigits : ∀ c ∈ ds ++ fs ++ List.replicate (precision - fs.length) '0', c.isDigit = true := by
    intro c hc
    simp only [List.mem_append] at hc
    rcases hc with (hc | hc) | hc
    · exact hds c hc
    · exact hfs c hc
    · rw [List.eq_of_mem_replicate hc]
      rfl
  have hassoc : sign ++ ds ++ fs ++ List.replicate (precision - fs.length) '0' =
      sign ++ (ds ++ fs ++ List.replicate (precision - fs.length) '0') := by
    simp only [List.append_assoc]
  rw [hassoc, setStringBase10_sign_append hsign hne hdigits, ofDigitChars_pad ds fs hlen]

theorem not_mem_of_IsSetStringSign {sign : List Char} (hsign : IsSetStringSign sign) :
    '.' ∉ sign := by
  rcases hsign with rfl | rfl | rfl <;> decide

/-- An integer part with a sign or a digit, and at most eighteen places, is read as its value. -/
theorem decStrToInt_sign_append {sign ds fs : List Char} (hsign : IsSetStringSign sign)
    (hne : sign ++ ds ≠ []) (hds : ∀ c ∈ ds, c.isDigit = true) (hfs : ∀ c ∈ fs, c.isDigit = true)
    (hlen : fs.length ≤ precision) :
    decStrToInt (sign ++ ds ++ pointIf fs) = .ok (negIf (sign == ['-']) (scaledValue ds fs)) := by
  have hdot : ('.' : Char).isDigit = false := by decide
  have hint : '.' ∉ sign ++ ds := by
    rw [List.mem_append, not_or]
    exact ⟨not_mem_of_IsSetStringSign hsign, not_mem_of_isDigit hdot hds⟩
  have hread := setStringBase10_pad hsign hds hfs hlen
  unfold decStrToInt
  by_cases hnil : fs = []
  · -- no point: eighteen zeros
    subst hnil
    have hsplit : (sign ++ ds ++ pointIf []).splitOn '.' = [sign ++ ds] := by
      rw [pointIf, if_pos rfl, List.append_nil]
      exact splitOn_of_not_mem hint
    simp only [List.append_nil, List.length_nil] at hread
    simp only [hsplit, gt_iff_lt, Nat.not_lt_zero, if_false, hread, Except.ok_bind,
      Except.pure_eq_ok]
  · -- a point: the places padded to eighteen
    have hsplit : (sign ++ ds ++ pointIf fs).splitOn '.' = [sign ++ ds, fs] := by
      rw [pointIf, if_neg hnil]
      exact splitOn_append_cons hint (not_mem_of_isDigit hdot hfs)
    have hnonempty : ¬(fs.length = 0 ∨ String.utf8Len (sign ++ ds) = 0) := by
      have hpos := utf8Len_pos hne
      have hfs_pos : 0 < fs.length := List.length_pos_iff.2 hnil
      omega
    have hshort : ¬precision < fs.length := Nat.not_lt.2 hlen
    simp only [hsplit, if_neg hnonempty, utf8Len_of_isDigit hfs, gt_iff_lt, if_neg hshort, hread,
      Except.ok_bind, Except.pure_eq_ok]

/-- A sign in front of text that ends with a tail is in front of the text's head, when that
head is not empty. -/
theorem sign_append_eq_append {sign ds' ip tail : List Char} (hsign : IsSetStringSign sign)
    (hip : ip ≠ []) (h : ip ++ tail = sign ++ ds') : ∃ ds, ip = sign ++ ds ∧ ds' = ds ++ tail := by
  rcases hsign with rfl | rfl | rfl
  · rw [List.nil_append] at h
    exact ⟨ip, rfl, h.symm⟩
  all_goals
    obtain ⟨c, ip', rfl⟩ := List.exists_cons_of_ne_nil hip
    simp only [List.cons_append, List.cons.injEq] at h
    exact ⟨ip', by rw [h.1]; rfl, h.2.symm⟩

/-- What `decStrToInt` reads is a sign, digits and at most eighteen places after a point, with
a sign or a digit before it. -/
theorem decStrToInt_eq_ok {s : List Char} {c : ℤ} (hs : s ≠ []) (h : decStrToInt s = .ok c) :
    ∃ sign ds fs, s = sign ++ ds ++ pointIf fs ∧ IsSetStringSign sign ∧ sign ++ ds ≠ [] ∧
      (∀ c ∈ ds, c.isDigit = true) ∧ (∀ c ∈ fs, c.isDigit = true) ∧ fs.length ≤ precision ∧
      c = negIf (sign == ['-']) (scaledValue ds fs) := by
  have hjoin : ['.'].intercalate (s.splitOn '.') = s := List.intercalate_splitOn '.'
  unfold decStrToInt at h
  generalize s.splitOn '.' = strs at h hjoin
  rcases strs with _ | ⟨intPart, _ | ⟨decs, _ | ⟨x, rest⟩⟩⟩
  · simp at h
  · -- no point: the integer part padded with eighteen zeros
    simp only [List.intercalate_singleton] at hjoin
    subst hjoin
    simp only [Except.pure_eq_ok, Except.ok_bind, gt_iff_lt, Nat.not_lt_zero, if_false,
      Nat.sub_zero] at h
    split at h
    · cases h
    · rename_i combined hread
      cases h
      obtain ⟨sign, ds', hcomb, hsign, -, hds', rfl⟩ := setStringBase10_eq_some hread
      obtain ⟨ds, rfl, rfl⟩ := sign_append_eq_append hsign hs hcomb
      refine ⟨sign, ds, [], by rw [pointIf, if_pos rfl, List.append_nil], hsign, hs,
        fun c hc => hds' c (List.mem_append_left _ hc), (fun c hc => by cases hc), Nat.zero_le _, ?_⟩
      rw [← ofDigitChars_pad ds [] (Nat.zero_le _), List.append_nil, List.length_nil,
        Nat.sub_zero]
  · -- a point: the places padded to eighteen
    simp only [List.intercalate, List.intersperse_cons_cons, List.intersperse_singleton, List.flatten_cons,
      List.flatten_nil, List.append_nil, List.cons_append, List.nil_append] at hjoin
    subst hjoin
    simp only [Except.pure_eq_ok, Except.ok_bind] at h
    split_ifs at h with hnonempty hlong
    · simp at h
    · simp at h
    split at h
    · cases h
    rename_i combined hread
    cases h
    have hip : intPart ≠ [] := fun hnil => hnonempty (.inr (by rw [hnil]; rfl))
    obtain ⟨sign, ds', hcomb, hsign, -, hds', rfl⟩ := setStringBase10_eq_some hread
    rw [List.append_assoc] at hcomb
    obtain ⟨ds, rfl, rfl⟩ := sign_append_eq_append hsign hip hcomb
    have hds : ∀ c ∈ ds, c.isDigit = true := fun c hc => hds' c (List.mem_append_left _ hc)
    have hdecs : ∀ c ∈ decs, c.isDigit = true := fun c hc =>
      hds' c (List.mem_append_right _ (List.mem_append_left _ hc))
    rw [utf8Len_of_isDigit hdecs] at hnonempty hlong ⊢
    have hdecs_ne : decs ≠ [] := fun hnil => hnonempty (.inl (by rw [hnil]; rfl))
    refine ⟨sign, ds, decs, by rw [pointIf, if_neg hdecs_ne, List.append_assoc], hsign, hip, hds,
      hdecs, Nat.not_lt.1 hlong, ?_⟩
    rw [← ofDigitChars_pad ds decs (Nat.not_lt.1 hlong), List.append_assoc]
  · simp at h

/-- Without the minus sign that `NewDecFromStr` strips, accepted text starts with another
character. -/
theorem exists_cons_ne_minus {sign ds : List Char} (fs : List Char) (hsign : IsSetStringSign sign)
    (hminus : sign ≠ ['-']) (hne : sign ++ ds ≠ []) (hds : ∀ c ∈ ds, c.isDigit = true) :
    ∃ c cs, sign ++ ds ++ pointIf fs = c :: cs ∧ c ≠ '-' := by
  rcases hsign with rfl | rfl | rfl
  · -- no sign: a digit comes first
    rw [List.nil_append] at hne ⊢
    obtain ⟨c, cs, rfl⟩ := List.exists_cons_of_ne_nil hne
    have hc : c.isDigit = true := hds c List.mem_cons_self
    refine ⟨c, cs ++ pointIf fs, rfl, ?_⟩
    rintro rfl
    exact absurd hc (by decide)
  · exact ⟨'+', ds ++ pointIf fs, rfl, by decide⟩
  · exact absurd rfl hminus

/-- Accepted text is read as its value. -/
theorem NewDecFromStr_of_accepted {str : String} {v : ℤ} (h : AcceptedDecimal str.toList v) :
    NewDecFromStr str = .ok ⟨v⟩ := by
  obtain ⟨neg, sign, ds, fs, hs, hsign, hminus, hne, hds, hfs, hlen, rfl⟩ := h
  have hread := decStrToInt_sign_append hsign hne hds hfs hlen
  have hrest : sign ++ ds ++ pointIf fs ≠ [] := List.append_ne_nil_of_left_ne_nil hne _
  unfold NewDecFromStr
  rw [hs]
  cases neg with
  | true =>
    -- the minus sign is stripped, and negates what follows
    have hcons : minusIf true ++ sign ++ ds ++ pointIf fs = '-' :: (sign ++ ds ++ pointIf fs) := by
      simp [minusIf]
    rw [hcons]
    simp only [reduceCtorEq, if_false, hrest, hread, Except.ok_bind, Except.pure_eq_ok]
    rfl
  | false =>
    obtain ⟨c, cs, hcs, hc⟩ := exists_cons_ne_minus fs hsign (fun h => by cases hminus h) hne hds
    have hcons : minusIf false ++ sign ++ ds ++ pointIf fs = c :: cs := by
      rw [← hcs]
      simp [minusIf]
    rw [hcons]
    rw [hcs] at hread
    simp only [reduceCtorEq, if_false, minus_of_ne hc, hread, Except.ok_bind, Except.pure_eq_ok]
    rfl

/-- What `NewDecFromStr` reads is accepted text, and its value. -/
theorem accepted_of_NewDecFromStr {str : String} {v : ℤ} (h : NewDecFromStr str = .ok ⟨v⟩) :
    AcceptedDecimal str.toList v := by
  unfold NewDecFromStr at h
  generalize str.toList = s at h ⊢
  rcases s with _ | ⟨c, cs⟩
  · simp at h
  by_cases hc : c = '-'
  · -- a minus sign, stripped before the rest is read
    subst hc
    simp only [reduceCtorEq, if_false] at h
    split_ifs at h with hcs
    · simp at h
    obtain ⟨combined, hread, hv⟩ := Except.bind_eq_ok.1 h
    obtain ⟨sign, ds, fs, rfl, hsign, hne, hds, hfs, hlen, rfl⟩ := decStrToInt_eq_ok hcs hread
    refine ⟨true, sign, ds, fs, rfl, hsign, fun _ => rfl, hne, hds, hfs, hlen, ?_⟩
    simp only [Except.pure_eq_ok, Except.ok_inj, Dec.mk.injEq] at hv
    rw [← hv]
    rfl
  · simp only [reduceCtorEq, if_false, minus_of_ne hc] at h
    obtain ⟨combined, hread, hv⟩ := Except.bind_eq_ok.1 h
    obtain ⟨sign, ds, fs, hcs, hsign, hne, hds, hfs, hlen, rfl⟩ :=
      decStrToInt_eq_ok (List.cons_ne_nil c cs) hread
    -- a minus read by `SetString` would have been the first character
    have hminus : sign ≠ ['-'] := by
      rintro rfl
      simp only [List.cons_append, List.nil_append, List.cons.injEq] at hcs
      exact hc hcs.1
    refine ⟨false, sign, ds, fs, by rw [hcs]; rfl, hsign, fun h => absurd h hminus, hne, hds, hfs,
      hlen, ?_⟩
    simp only [Except.pure_eq_ok, Except.ok_inj, Dec.mk.injEq] at hv
    rw [← hv]
    rfl

theorem NewDecFromStr_eq_ok_iff {str : String} {v : ℤ} :
    NewDecFromStr str = .ok ⟨v⟩ ↔ AcceptedDecimal str.toList v :=
  ⟨accepted_of_NewDecFromStr, NewDecFromStr_of_accepted⟩

theorem NewDecFromStr_accepts_extra_signs :
    (∀ (str : String) (v : ℤ), NewDecFromStr str = .ok ⟨v⟩ ↔ AcceptedDecimal str.toList v) ∧
      ∀ (s : List Char) (v : ℤ), DocumentedDecimal s v → AcceptedDecimal s v :=
  ⟨fun _ _ => NewDecFromStr_eq_ok_iff, fun _ _ h => h.accepted⟩

theorem NewDecFromStr_accepts_extra_signs_plus_one :
    NewDecFromStr "+1" = .ok ⟨10 ^ 18⟩ ∧ ∀ v, ¬DocumentedDecimal "+1".toList v := by
  have hplus : "+1".toList = ['+', '1'] := rfl
  refine ⟨(NewDecFromStr_accepts_extra_signs.1 "+1" (10 ^ 18)).2
    ⟨false, ['+'], ['1'], [], by rw [hplus]; rfl, .inr (.inl rfl), (fun h => by cases h),
      List.cons_ne_nil _ _, List.forall_mem_singleton.2 rfl, List.forall_mem_nil _, Nat.zero_le _,
      by decide⟩, ?_⟩
  -- the documented text starts with a minus or a digit, not with a plus
  rintro v ⟨neg, ds, fs, hs, hne, hds, -, -, -⟩
  obtain ⟨d, ds', rfl⟩ := List.exists_cons_of_ne_nil hne
  have hd : d.isDigit = true := hds d List.mem_cons_self
  cases neg with
  | true => simp [hplus, minusIf] at hs
  | false =>
    simp only [hplus, minusIf, Bool.false_eq_true, if_false, List.nil_append, List.cons_append,
      List.cons.injEq] at hs
    rw [← hs.1] at hd
    exact absurd hd (by decide)

end Dec

end CosmosSdk
