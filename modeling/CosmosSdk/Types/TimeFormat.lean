import CosmosSdk.Types.Basic
import CosmosSdk.Lib.GoTime

/-!
# Sortable time keys

`sdk.FormatTimeBytes` writes a time in UTC by the layout `2006-01-02T15:04:05.000000000`, and
`sdk.ParseTimeBytes` reads it back; the staking and governance queues key their entries by
this text.  For the years 0 to 9999 the text has one width: it writes the year, month, day,
hour, minute, second and nanoseconds in 4, 2, 2, 2, 2, 2 and 9 digits after fixed literals
(`FormatTimeBytes_eq_fixedFields`).  Its bytes are then ordered as the times are
(`FormatTimeBytes_strictMonoOn`), since a later time has a later list of fields
(`timeValues_lt`), and parsing gives the time back (`ParseTimeBytes_FormatTimeBytes`).
-/

namespace CosmosSdk

open GoTime FixedWidth

/-- `sdk.SortableTimeFormat`, `"2006-01-02T15:04:05.000000000"`, cut into its elements. -/
def SortableTimeFormat : Layout :=
  ⟨[([], .longYear), (ascii "-", .zeroMonth), (ascii "-", .zeroDay), (ascii "T", .hour),
    (ascii ":", .zeroMinute), (ascii ":", .zeroSecond), ([], .fracSecond0 9)], []⟩

/-- `sdk.FormatTimeBytes`: `t.UTC().Round(0).Format(SortableTimeFormat)`, as bytes. -/
def FormatTimeBytes (t : Time) : List UInt8 := Format SortableTimeFormat t

/-- `sdk.ParseTimeBytes`: `time.Parse(SortableTimeFormat, string(bz))`, in UTC. -/
def ParseTimeBytes (bz : List UInt8) : Except ParseError Time := Parse SortableTimeFormat bz

/-- The fields of the sortable text: each literal and the width of the number after it. -/
def sortableFields : List (List UInt8 × ℕ) :=
  [([], 4), (ascii "-", 2), (ascii "-", 2), (ascii "T", 2), (ascii ":", 2), (ascii ":", 2),
    (ascii ".", 9)]

/-- The numbers a time writes in the sortable text. -/
def timeValues (t : Time) : List ℕ :=
  [(date t).1, (date t).2.1, (date t).2.2, (clock t).1, (clock t).2.1, (clock t).2.2,
    nanosecond t].map Int.toNat

/-! ### The fields of a time -/

theorem clock_range (t : Time) :
    0 ≤ (clock t).1 ∧ (clock t).1 < 24 ∧ 0 ≤ (clock t).2.1 ∧ (clock t).2.1 < 60 ∧
      0 ≤ (clock t).2.2 ∧ (clock t).2.2 < 60 := by
  simp only [clock]
  omega

theorem nanosecond_range (t : Time) : 0 ≤ nanosecond t ∧ nanosecond t < 10 ^ 9 := by
  simp only [nanosecond]
  omega

/-- A date of the calendar: its month and its day within their ranges. -/
theorem date_valid (t : Time) :
    1 ≤ (date t).2.1 ∧ (date t).2.1 ≤ 12 ∧ 1 ≤ (date t).2.2 ∧ (date t).2.2 ≤ 31 := by
  obtain ⟨hm1, hm12, hd1, hd⟩ := Calendar.civilFromDays_valid (GoTime.unix t / 86400)
  have := Calendar.daysIn_le hm1 hm12 (Calendar.civilFromDays (GoTime.unix t / 86400)).1
  exact ⟨hm1, hm12, hd1, by unfold date; omega⟩

/-- The numbers of a time of the years 0 to 9999 fit their fields. -/
theorem fitsFields_timeValues {t : Time} (h0 : 0 ≤ (date t).1) (h1 : (date t).1 ≤ 9999) :
    FitsFields sortableFields (timeValues t) := by
  obtain ⟨hm1, hm12, hd1, hd31⟩ := date_valid t
  obtain ⟨hh0, hh, hmi0, hmi, hs0, hs⟩ := clock_range t
  obtain ⟨hns0, hns⟩ := nanosecond_range t
  simp only [sortableFields, timeValues, List.map_cons, List.map_nil, FitsFields, and_true]
  omega

/-! ### The text -/

/-- The sortable text of a time of the years 0 to 9999 is its numbers in fixed-width fields. -/
theorem FormatTimeBytes_eq_fixedFields {t : Time} (h0 : 0 ≤ (date t).1) (h1 : (date t).1 ≤ 9999) :
    FormatTimeBytes t = fixedFields sortableFields (timeValues t) := by
  obtain ⟨hm1, hm12, hd1, hd31⟩ := date_valid t
  obtain ⟨hh0, hh, hmi0, hmi, hs0, hs⟩ := clock_range t
  obtain ⟨hns0, hns⟩ := nanosecond_range t
  simp only [FormatTimeBytes, Format, SortableTimeFormat, List.flatMap_cons, List.flatMap_nil,
    formatStd]
  rw [appendInt_of_nonneg (by decide) h0 (by omega), appendInt_of_nonneg (by decide) (by omega) (by omega),
    appendInt_of_nonneg (by decide) (by omega) (by omega), appendInt_of_nonneg (by decide) hh0 (by omega),
    appendInt_of_nonneg (by decide) hmi0 (by omega), appendInt_of_nonneg (by decide) hs0 (by omega),
    formatNano_nine]
  simp only [sortableFields, timeValues, List.map_cons, List.map_nil, fixedFields,
    List.append_assoc, List.nil_append, List.append_nil]
  rfl

/-- Fields in order, the date, then the clock, then the nanoseconds, give numbers in order. -/
theorem fieldValues_lt {D₁ D₂ C₁ C₂ : ℤ × ℤ × ℤ} {n₁ n₂ : ℤ}
    (h : Calendar.dateKey D₁ < Calendar.dateKey D₂ ∨
      D₁ = D₂ ∧ (Calendar.dateKey C₁ < Calendar.dateKey C₂ ∨ C₁ = C₂ ∧ n₁ < n₂)) :
    [D₁.1, D₁.2.1, D₁.2.2, C₁.1, C₁.2.1, C₁.2.2, n₁] < [D₂.1, D₂.2.1, D₂.2.2, C₂.1, C₂.2.1, C₂.2.2, n₂] := by
  simp only [Calendar.dateKey, Prod.Lex.toLex_lt_toLex] at h
  simp only [List.cons_lt_cons_iff]
  rcases h with hD | ⟨rfl, hC | ⟨rfl, hn⟩⟩
  · omega
  · omega
  · omega

/-- Within one day, a later second of the day has a later clock. -/
theorem clock_lt {t₁ t₂ : Time} (h : GoTime.unix t₁ % 86400 < GoTime.unix t₂ % 86400) :
    Calendar.dateKey (clock t₁) < Calendar.dateKey (clock t₂) := by
  simp only [clock, Calendar.dateKey, Prod.Lex.toLex_lt_toLex]
  omega

/-- A later time has a later list of numbers: the day decides through its date, and within a
day the clock and then the nanoseconds. -/
theorem timeValues_lt {t₁ t₂ : Time} (h0 : 0 ≤ (date t₁).1) (hlt : t₁ < t₂) :
    timeValues t₁ < timeValues t₂ := by
  obtain ⟨hm1, -, hd1, -⟩ := date_valid t₁
  obtain ⟨hh0, -, hmi0, -, hs0, -⟩ := clock_range t₁
  obtain ⟨hns₁, hns₁'⟩ := nanosecond_range t₁
  obtain ⟨hns₂, hns₂'⟩ := nanosecond_range t₂
  have ht₁ := unix_mul_add_nanosecond t₁
  have ht₂ := unix_mul_add_nanosecond t₂
  -- a `Time` is an integer
  have hlt' : @LT.lt ℤ _ t₁ t₂ := hlt
  have hsplit : GoTime.unix t₁ / 86400 < GoTime.unix t₂ / 86400 ∨ GoTime.unix t₁ / 86400 = GoTime.unix t₂ / 86400 ∧
      (GoTime.unix t₁ % 86400 < GoTime.unix t₂ % 86400 ∨
        GoTime.unix t₁ % 86400 = GoTime.unix t₂ % 86400 ∧ nanosecond t₁ < nanosecond t₂) := by
    omega
  refine map_toNat_lt_map_toNat (fun x hx => ?_) ?_
  · simp only [List.mem_cons, List.not_mem_nil, or_false] at hx
    rcases hx with rfl | rfl | rfl | rfl | rfl | rfl | rfl <;> omega
  apply fieldValues_lt
  rcases hsplit with hday | ⟨hday, hsec | ⟨hsec, hns⟩⟩
  -- a later day has a later date
  · exact .inl (Calendar.civilFromDays_strictMono hday)
  -- within one day, the clock and then the nanoseconds decide
  · exact .inr ⟨by unfold date; rw [hday], .inl (clock_lt hsec)⟩
  · exact .inr ⟨by unfold date; rw [hday], .inr ⟨by unfold clock; rw [hsec], hns⟩⟩

/-- The sortable text is strictly monotone on the times of the years 0 to 9999. -/
theorem FormatTimeBytes_strictMonoOn :
    StrictMonoOn FormatTimeBytes {t : Time | 0 ≤ (date t).1 ∧ (date t).1 ≤ 9999} := by
  rintro t₁ ⟨h₁0, h₁1⟩ t₂ ⟨h₂0, h₂1⟩ hlt
  rw [FormatTimeBytes_eq_fixedFields h₁0 h₁1, FormatTimeBytes_eq_fixedFields h₂0 h₂1]
  exact fixedFields_lt_fixedFields (fitsFields_timeValues h₁0 h₁1) (fitsFields_timeValues h₂0 h₂1)
    (timeValues_lt h₁0 hlt)

/-- The sortable text of a time of the years 0 to 9999 has 29 bytes. -/
theorem length_FormatTimeBytes {t : Time} (h0 : 0 ≤ (date t).1) (h1 : (date t).1 ≤ 9999) :
    (FormatTimeBytes t).length = 29 := by
  rw [FormatTimeBytes_eq_fixedFields h0 h1]
  simp only [sortableFields, timeValues, List.map_cons, List.map_nil, fixedFields,
    List.length_append, length_lowDigits]
  rfl

/-! ### Reading the text back -/

/-- Parsing the sortable text of a time of the years 0 to 9999 gives the time back. -/
theorem ParseTimeBytes_FormatTimeBytes {t : Time} (h0 : 0 ≤ (date t).1) (h1 : (date t).1 ≤ 9999) :
    ParseTimeBytes (FormatTimeBytes t) = .ok t := by
  obtain ⟨hm1, hm12, hd1, hd31⟩ := date_valid t
  obtain ⟨hh0, hh, hmi0, hmi, hs0, hs⟩ := clock_range t
  obtain ⟨hns0, hns⟩ := nanosecond_range t
  rw [FormatTimeBytes_eq_fixedFields h0 h1]
  simp only [ParseTimeBytes, Parse, SortableTimeFormat, sortableFields, timeValues, List.map_cons,
    List.map_nil, fixedFields, List.append_assoc, show ascii "." = ['.'.toUInt8] from rfl, List.singleton_append]
  -- the elements one after the other
  rw [parseChunks_cons_of_step (skip_append (by decide) _) (parseStd_longYear _ _ _ (by omega)),
    parseChunks_cons_of_step (skip_append (by decide) _) (parseStd_zeroMonth _ _ _ (by omega) (by omega)),
    parseChunks_cons_of_step (skip_append (by decide) _) (parseStd_zeroDay _ _ _ (by omega)),
    parseChunks_cons_of_step (skip_append (by decide) _) (parseStd_hour _ _ _ (by omega)),
    parseChunks_cons_of_step (skip_append (by decide) _) (parseStd_zeroMinute _ _ _ (by omega)),
    parseChunks_cons_of_step (skip_append (by decide) _) (parseStd_zeroSecond _ _ _ (by omega) rfl),
    parseChunks_cons_of_step (skip_nil _) (parseStd_fracSecond0_nine _ _ _ (by omega)),
    parseChunks_nil (skip_nil [])]
  -- the fields read back are the time's, and its day is one of its month's
  have hdays : (date t).2.2 ≤ Calendar.daysIn (date t).2.1 (date t).1 :=
    (Calendar.civilFromDays_valid _).2.2.2
  simp only [Int.toNat_of_nonneg h0, Int.toNat_of_nonneg hh0, Int.toNat_of_nonneg hmi0,
    Int.toNat_of_nonneg hs0, Int.toNat_of_nonneg hns0, Int.toNat_of_nonneg (show 0 ≤ (date t).2.1 by omega),
    Int.toNat_of_nonneg (show 0 ≤ (date t).2.2 by omega), bind, Except.bind, pure, Except.pure]
  rw [if_neg (by omega), Date_date_clock]

/-- Sortable time keys: for the times of the years 0 to 9999, the bytes compare as the times
do, to the nanosecond, and parse back to the time. -/
theorem FormatTimeBytes_sortable_round_trip :
    (∀ t₁ t₂ : Time, 0 ≤ (date t₁).1 ∧ (date t₁).1 ≤ 9999 → 0 ≤ (date t₂).1 ∧ (date t₂).1 ≤ 9999 →
      cmp (FormatTimeBytes t₁) (FormatTimeBytes t₂) = cmp t₁ t₂) ∧
    ∀ t : Time, 0 ≤ (date t).1 ∧ (date t).1 ≤ 9999 → ParseTimeBytes (FormatTimeBytes t) = .ok t :=
  ⟨fun _ _ h₁ h₂ => by
    -- core's order of lists is the one of Mathlib's linear order
    convert FormatTimeBytes_strictMonoOn.cmp_map_eq h₁ h₂
    rfl,
    fun _ h => ParseTimeBytes_FormatTimeBytes h.1 h.2⟩

theorem FormatTimeBytes_sortable_round_trip_epoch :
    cmp (FormatTimeBytes 0) (FormatTimeBytes (10 ^ 9)) = .lt ∧
      ParseTimeBytes (FormatTimeBytes 0) = .ok 0 :=
  ⟨(FormatTimeBytes_sortable_round_trip.1 0 (10 ^ 9) (by decide) (by decide)).trans (by decide),
    FormatTimeBytes_sortable_round_trip.2 0 (by decide)⟩

end CosmosSdk
