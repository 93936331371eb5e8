import AlertDesk.Proofs.Doubles
import AlertDesk.Proofs.TimeOrder
import AlertDesk.Time.JulianDay

/-!
Which stored times have a place on the Julian day scale. The seconds of a time are taken to whole
milliseconds as doubles, and that is close enough for the time to have its place exactly if, rounded
to the millisecond, it lies between the ends of the scale.
-/
namespace AlertDesk

/-- What is written with a width begins with a digit. -/
theorem Digits.padded_cons (width n : Nat) :
    ∃ d more, d.isDigit = true ∧ padded (width + 1) n = d :: more := by
  obtain ⟨d, more, hdigits⟩ := List.exists_cons_of_length_eq_add_one (padded_length (width + 1) n)
  have hall := all_isDigit_padded (width + 1) n
  rw [hdigits] at hall
  exact ⟨d, more, (Bool.and_eq_true_iff.mp hall).1, hdigits⟩

namespace JulianDay

/-! ### Seconds as doubles -/

section
variable {second digits : Nat}

/-- The double whose floor is taken is close to the milliseconds and a half. -/
theorem roundedMillis_near (hsecond : second < 60) (hdigits : digits < 1000000) :
    ∃ q : ℚ, roundedMillis second digits 6 = some ⌊q⌋₊ ∧
      |q - (second * 1000 + digits / 1000 + 1 / 2)| ≤ 1 / 1000000 := by
  have hmillion : Double.nearest? (Nat.pow 10 6) 1 = some ⟨8589934592000000, -33⟩ := by
    decide +kernel
  have hthousand : Double.nearest? 1000 1 = some ⟨8796093022208000, -43⟩ := by decide +kernel
  have hhalf : Double.nearest? 1 2 = some ⟨4503599627370496, -53⟩ := by decide +kernel
  have hmillionValue : Double.value ⟨8589934592000000, -33⟩ = 1000000 := by norm_num [Double.value]
  have hthousandValue : Double.value ⟨8796093022208000, -43⟩ = 1000 := by norm_num [Double.value]
  have hhalfValue : Double.value ⟨4503599627370496, -53⟩ = 1 / 2 := by norm_num [Double.value]
  have hs : (second : ℚ) ≤ 59 := by exact_mod_cast (by omega : second ≤ 59)
  have hd : (digits : ℚ) ≤ 999999 := by exact_mod_cast (by omega : digits ≤ 999999)
  have hdigitsRatio : ((digits : Nat) : ℚ) / (1 : Nat) = digits := by rw [Nat.cast_one, div_one]
  have hsecondRatio : ((second : Nat) : ℚ) / (1 : Nat) = second := by rw [Nat.cast_one, div_one]
  obtain ⟨d, hdsome, hdnear⟩ := Double.nearest?_near Nat.one_pos hdigitsRatio (by linarith)
  obtain ⟨s, hssome, hsnear⟩ := Double.nearest?_near Nat.one_pos hsecondRatio (by linarith)
  rw [abs_le] at hdnear hsnear
  obtain ⟨fraction, hfsome, hfnear⟩ := Double.div?_near d (y := ⟨8589934592000000, -33⟩)
    (by rw [hmillionValue]; norm_num) (by rw [hmillionValue]; linarith)
  rw [hmillionValue, abs_le] at hfnear
  obtain ⟨seconds, hsumsome, hsumnear⟩ := Double.add?_near s fraction (by linarith)
  rw [abs_le] at hsumnear
  obtain ⟨millis, hmsome, hmnear⟩ := Double.mul?_near seconds ⟨8796093022208000, -43⟩
    (by rw [hthousandValue]; linarith)
  rw [hthousandValue, abs_le] at hmnear
  obtain ⟨x, hxsome, hxnear⟩ := Double.add?_near millis ⟨4503599627370496, -53⟩
    (by rw [hhalfValue]; linarith)
  rw [hhalfValue, abs_le] at hxnear
  refine ⟨x.value, ?_, by rw [abs_le]; constructor <;> linarith⟩
  rw [← Double.floor_eq]
  unfold roundedMillis
  refine Option.bind_eq_some_iff.mpr ⟨d, hdsome, ?_⟩
  refine Option.bind_eq_some_iff.mpr ⟨_, hmillion, ?_⟩
  refine Option.bind_eq_some_iff.mpr ⟨fraction, hfsome, ?_⟩
  refine Option.bind_eq_some_iff.mpr ⟨s, hssome, ?_⟩
  refine Option.bind_eq_some_iff.mpr ⟨seconds, hsumsome, ?_⟩
  refine Option.bind_eq_some_iff.mpr ⟨_, hthousand, ?_⟩
  refine Option.bind_eq_some_iff.mpr ⟨millis, hmsome, ?_⟩
  refine Option.bind_eq_some_iff.mpr ⟨_, hhalf, ?_⟩
  exact Option.bind_eq_some_iff.mpr ⟨x, hxsome, rfl⟩

/-- The milliseconds of a minute reach the next minute exactly from its last half millisecond on. -/
theorem roundedMillis_spec (hsecond : second < 60) (hdigits : digits < 1000000) :
    ∃ r, roundedMillis second digits 6 = some r ∧ r ≤ 60000 ∧
      (r = 60000 ↔ second = 59 ∧ 999500 ≤ digits) := by
  obtain ⟨q, hq, hnear⟩ := roundedMillis_near hsecond hdigits
  rw [abs_le] at hnear
  have hs : (second : ℚ) ≤ 59 := by exact_mod_cast (by omega : second ≤ 59)
  have hd : (digits : ℚ) ≤ 999999 := by exact_mod_cast (by omega : digits ≤ 999999)
  have hs0 : (0 : ℚ) ≤ second := Nat.cast_nonneg _
  have hd0 : (0 : ℚ) ≤ digits := Nat.cast_nonneg _
  have hq0 : 0 ≤ q := by linarith
  have hle : ⌊q⌋₊ ≤ 60000 := by
    refine Nat.le_of_lt_succ ((Nat.floor_lt hq0).mpr ?_)
    push_cast
    linarith
  refine ⟨⌊q⌋₊, hq, hle, ?_⟩
  have hreach : ⌊q⌋₊ = 60000 ↔ 60000 ≤ q := by
    rw [le_antisymm_iff, and_iff_right hle, Nat.le_floor_iff hq0]
    norm_num
  constructor
  · intro h
    have h60 := hreach.mp h
    refine ⟨?_, ?_⟩
    · by_contra hne
      have hs' : (second : ℚ) ≤ 58 := by exact_mod_cast (by omega : second ≤ 58)
      linarith
    · by_contra hlt
      have hd' : (digits : ℚ) ≤ 999499 := by exact_mod_cast (by omega : digits ≤ 999499)
      linarith
  · rintro ⟨rfl, hmany⟩
    rcases Nat.eq_or_lt_of_le hmany with rfl | hmore
    -- The tie comes out upwards, as it should.
    · have htie : roundedMillis 59 999500 6 = some 60000 := by decide +kernel
      rw [htie] at hq
      exact (Option.some.inj hq).symm
    · have hd' : (999501 : ℚ) ≤ digits := by exact_mod_cast hmore
      refine hreach.mpr ?_
      push_cast at hnear
      linarith

end

/-! ### Reading a stored time -/

section
variable {year month day hour minute second micros r : Nat}

theorem clock?_padded (date : Date) (hhour : hour ≤ 24) (hminute : minute ≤ 59)
    (hsecond : second ≤ 59) (hmicros : micros < 10 ^ 6)
    (hr : roundedMillis second micros 6 = some r) :
    clock? date (Digits.padded 2 hour ++ ':' :: (Digits.padded 2 minute ++
      ':' :: (Digits.padded 2 second ++ '.' :: (Digits.padded 6 micros ++ ['Z'])))) =
      some ⟨date, hour * 60 + minute, r, 0⟩ := by
  have hchar (c : Char) (rest : List Char) : Rfc3339.char? c (c :: rest) = some rest := if_pos rfl
  refine Option.bind_eq_some_iff.mpr ⟨_, Digits.take?_padded (by omega) _, ?_⟩
  refine Option.bind_eq_some_iff.mpr ⟨_, hchar ':' _, ?_⟩
  refine Option.bind_eq_some_iff.mpr ⟨_, Digits.take?_padded (by omega) _, ?_⟩
  refine Option.bind_eq_some_iff.mpr ⟨(), if_pos ⟨hhour, hminute⟩, ?_⟩
  refine Option.bind_eq_some_iff.mpr ⟨_, Digits.take?_padded (by omega) _, ?_⟩
  refine Option.bind_eq_some_iff.mpr ⟨(), if_pos hsecond, ?_⟩
  have hlength : (Digits.padded 6 micros).length = 6 := Digits.padded_length 6 micros
  have hrun := Digits.run_padded 6 micros (show 'Z'.isDigit = false by decide) []
  have hnumber : Digits.number (Digits.padded 6 micros) = micros := by
    rw [Digits.number_padded]
    exact Nat.mod_eq_of_lt hmicros
  obtain ⟨d, more, hd, hdigits⟩ := Digits.padded_cons 5 micros
  rw [hdigits] at hlength hrun hnumber ⊢
  simp only [List.cons_append, hd, if_true]
  rw [← List.cons_append, hrun]
  have hmillis : roundedMillis second (Digits.number (d :: more)) (d :: more).length = some r := by
    rw [hnumber, hlength, hr]
  exact Option.bind_eq_some_iff.mpr ⟨r, hmillis, rfl⟩

/-- The minus sign of a year below zero is no digit, so it is told from the year itself. -/
theorem sign_padded (negative : Bool) (rest : List Char) :
    (match (if negative then ['-'] else []) ++ (Digits.padded 4 year ++ rest) with
      | '-' :: r => (true, r)
      | r => (false, r)) = (negative, Digits.padded 4 year ++ rest) := by
  cases negative with
  | true => rfl
  | false =>
    obtain ⟨d, more, hd, hdigits⟩ := Digits.padded_cons 3 year
    have hne : d ≠ '-' := by
      rintro rfl
      cases hd
    rw [hdigits]
    simp only [Bool.false_eq_true, if_false, List.nil_append, List.cons_append]
    split
    · next hminus =>
      cases hminus
      exact absurd rfl hne
    · rfl

/-- The mark between the date and the time of day is skipped, and no digit after it. -/
theorem dropWhile_mark {d : Char} (hd : d.isDigit = true) (clock : List Char) :
    ('T' :: d :: clock).dropWhile (fun c => isSpace c || c == 'T') = d :: clock := by
  have hne (c : Char) (hc : c.isDigit = false) : (d == c) = false := by
    rw [beq_eq_false_iff_ne]
    rintro rfl
    rw [hd] at hc
    cases hc
  have hbounds := Digits.isDigit_bounds hd
  have hstop : (isSpace d || d == 'T') = false := by
    simp [isSpace, hne ' ' (by decide), hne 'T' (by decide)]
    omega
  rw [List.dropWhile_cons_of_pos (by decide), List.dropWhile_cons_of_neg (by simp [hstop])]

theorem dated?_padded (negative : Bool) (hyear : year < 10 ^ 4) (hmonth : 1 ≤ month ∧ month ≤ 12)
    (hday : 1 ≤ day ∧ day ≤ 31) (hhour : hour ≤ 24) (hminute : minute ≤ 59)
    (hsecond : second ≤ 59) (hmicros : micros < 10 ^ 6)
    (hr : roundedMillis second micros 6 = some r) :
    dated? ((if negative then ['-'] else []) ++ (Digits.padded 4 year ++
      '-' :: (Digits.padded 2 month ++ '-' :: (Digits.padded 2 day ++
        'T' :: (Digits.padded 2 hour ++ ':' :: (Digits.padded 2 minute ++
          ':' :: (Digits.padded 2 second ++ '.' :: (Digits.padded 6 micros ++ ['Z'])))))))) =
      some ⟨⟨if negative then -(year : Int) else year, month, day⟩, hour * 60 + minute, r, 0⟩ := by
  have hchar (c : Char) (rest : List Char) : Rfc3339.char? c (c :: rest) = some rest := if_pos rfl
  have hclock := clock?_padded ⟨if negative then -(year : Int) else year, month, day⟩ hhour hminute
    hsecond hmicros hr
  obtain ⟨d, more, hd, hdigits⟩ := Digits.padded_cons 1 hour
  rw [hdigits, List.cons_append] at hclock
  rw [hdigits, List.cons_append]
  generalize more ++ _ = clock at hclock ⊢
  unfold dated?
  split
  next sign cs hsign =>
  obtain ⟨rfl, rfl⟩ := Prod.mk.inj (hsign.symm.trans (sign_padded negative _))
  refine Option.bind_eq_some_iff.mpr ⟨_, Digits.take?_padded hyear _, ?_⟩
  refine Option.bind_eq_some_iff.mpr ⟨_, hchar '-' _, ?_⟩
  refine Option.bind_eq_some_iff.mpr ⟨_, Digits.take?_padded (by omega) _, ?_⟩
  refine Option.bind_eq_some_iff.mpr ⟨_, hchar '-' _, ?_⟩
  refine Option.bind_eq_some_iff.mpr ⟨_, Digits.take?_padded (by omega) _, ?_⟩
  refine Option.bind_eq_some_iff.mpr ⟨(), if_pos ⟨hmonth.1, hmonth.2, hday⟩, ?_⟩
  dsimp only
  rw [dropWhile_mark hd]
  exact hclock

end

/-! ### The ends of the scale -/

/-- Rounded to the millisecond, a half upwards, the instant lies on the scale. -/
def Covers (t : Instant) : Prop :=
  0 ≤ (t.nanos + 500000) / 1000000 + epoch ∧ (t.nanos + 500000) / 1000000 + epoch ≤ last

instance (t : Instant) : Decidable (Covers t) := inferInstanceAs (Decidable (_ ∧ _))

theorem chars_ofInstant {t : Instant} (hyear : t.date.year.natAbs < 10 ^ 4) :
    (Stamp.ofInstant t).chars =
      (if decide (t.date.year < 0) then ['-'] else []) ++ (Digits.padded 4 t.date.year.natAbs ++
        '-' :: (Digits.padded 2 t.date.month ++ '-' :: (Digits.padded 2 t.date.day ++
          'T' :: (Digits.padded 2 (t.secondOfDay / 3600) ++
            ':' :: (Digits.padded 2 (t.secondOfDay / 60 % 60) ++
              ':' :: (Digits.padded 2 (t.secondOfDay % 60) ++
                '.' :: (Digits.padded 6 (t.nanoOfSecond / 1000) ++ ['Z']))))))) := by
  have hwritten : Instant.yearChars t.date.year =
      (if decide (t.date.year < 0) then ['-'] else []) ++ Digits.padded 4 t.date.year.natAbs := by
    by_cases hneg : t.date.year < 0
    · have hout : ¬ (0 ≤ t.date.year ∧ t.date.year ≤ 9999) := by omega
      have hfits : t.date.year.natAbs < Nat.pow 10 4 := hyear
      simp only [Instant.yearChars, if_neg hout, hneg, decide_true, if_true,
        Digits.atLeast, if_pos hfits]
      rfl
    · have hin : 0 ≤ t.date.year ∧ t.date.year ≤ 9999 := by omega
      have hsame : t.date.year.toNat = t.date.year.natAbs := by omega
      simp only [Instant.yearChars, if_pos hin, hneg, decide_false, Bool.false_eq_true, if_false,
        hsame, List.nil_append]
  simp only [Stamp.ofInstant, Instant.dateChars, Instant.clockChars, hwritten, List.append_assoc,
    List.cons_append]

theorem reading?_ofInstant {t : Instant} (hyear : t.date.year.natAbs < 10 ^ 4) {r : Nat}
    (hr : roundedMillis (t.secondOfDay % 60) (t.nanoOfSecond / 1000) 6 = some r) :
    reading? (Stamp.ofInstant t).chars =
      some ⟨t.date, t.secondOfDay / 3600 * 60 + t.secondOfDay / 60 % 60, r, 0⟩ := by
  have hvalid := (Date.ofDay_spec (t.nanos / Instant.perDay)).1
  change t.date.isValid = true at hvalid
  simp only [Date.isValid, Bool.and_eq_true, decide_eq_true_eq] at hvalid
  obtain ⟨⟨⟨hmonth, hmonth'⟩, hday⟩, hday'⟩ := hvalid
  have hlength : Calendar.monthLength (Calendar.isLeap t.date.year) t.date.month ≤ 31 := by
    unfold Calendar.monthLength
    split <;> try split
    all_goals omega
  have hsecond := Stamp.secondOfDay_lt t
  obtain ⟨_, _, _, hmicros⟩ := Stamp.fields_lt t
  have hsign : (if decide (t.date.year < 0) then -(t.date.year.natAbs : Int)
      else t.date.year.natAbs) = t.date.year := by
    by_cases hneg : t.date.year < 0
    · simp only [hneg, decide_true, if_true]
      omega
    · simp only [hneg, decide_false, Bool.false_eq_true, if_false]
      omega
  have hdated := dated?_padded (decide (t.date.year < 0)) hyear ⟨hmonth, hmonth'⟩
    ⟨hday, by omega⟩ (show t.secondOfDay / 3600 ≤ 24 by omega)
    (show t.secondOfDay / 60 % 60 ≤ 59 by omega) (by omega) hmicros hr
  rw [hsign, ← chars_ofInstant hyear] at hdated
  rw [reading?, hdated]
  rfl

/-- In these years a time has its place exactly if the scale covers it. -/
theorem isSome_millis?_of_year {t : Instant} (hyear : t.date.year.natAbs < 10 ^ 4) :
    (millis? (.ofInstant t)).isSome = true ↔ Covers t := by
  have hsecond := Stamp.secondOfDay_lt t
  obtain ⟨_, _, _, hmicros⟩ := Stamp.fields_lt t
  obtain ⟨r, hr, hle, hreach⟩ :=
    roundedMillis_spec (Nat.mod_lt t.secondOfDay (by omega : 0 < 60)) hmicros
  have hday : t.date.dayNumber = t.nanos / Instant.perDay :=
    (Date.ofDay_spec (t.nanos / Instant.perDay)).2
  have hstart := Calendar.yearStart_yearOf (t.nanos / Instant.perDay + Calendar.epoch)
  change Calendar.yearStart t.date.year ≤ _ ∧ _ < Calendar.yearStart (t.date.year + 1) at hstart
  have hrange : 0 ≤ t.nanos / Instant.perDay + 2440588 → -4713 ≤ t.date.year := by
    unfold Calendar.yearStart Calendar.epoch at hstart
    omega
  have hnanos : t.nanos =
      (t.nanos / Instant.perDay * 86400 + t.secondOfDay) * 1000000000 + t.nanoOfSecond := by
    unfold Instant.secondOfDay Instant.nanoOfSecond Instant.nanoOfDay Instant.perDay
      Instant.perSecond
    omega
  have hfraction : t.nanoOfSecond < 1000000000 := Nat.mod_lt t.nanoOfDay (by omega)
  have hminute : t.secondOfDay / 3600 * 60 + t.secondOfDay / 60 % 60 = t.secondOfDay / 60 := by
    omega
  rw [millis?, reading?_ofInstant hyear hr]
  simp only [Reading.millis?, hday, millisPerDay, hminute]
  generalize t.nanos / Instant.perDay = day at hnanos hrange ⊢
  generalize t.secondOfDay = seconds at hnanos hsecond hreach ⊢
  generalize t.nanoOfSecond = nano at hnanos hfraction hreach ⊢
  -- The first minute that counts only if it is rounded up, and the last one that counts.
  have hplace : (0 ≤ day * 86400000 + epoch + (seconds / 60 : Nat) * 60000 + r - 0 * 60000 ∧
      day * 86400000 + epoch + (seconds / 60 : Nat) * 60000 + r - 0 * 60000 ≤ last) ↔ Covers t := by
    unfold Covers epoch last
    omega
  rw [← hplace]
  split
  · next hin => exact iff_of_true rfl hin.2
  · next hout =>
    refine iff_of_false Bool.false_ne_true fun hin => hout ⟨hrange ?_, hin⟩
    unfold epoch last at hin
    omega

/-! ### Years that are out of range -/

theorem mem_dropWhile {α : Type} {p : α → Bool} {a : α} {l : List α} (h : a ∈ l)
    (hp : p a = false) :
    a ∈ l.dropWhile p := by
  induction l with
  | nil => cases h
  | cons b l ih =>
    rw [List.dropWhile_cons]
    split
    · next hb =>
      rcases List.mem_cons.mp h with rfl | h
      · rw [hp] at hb
        cases hb
      · exact ih h
    · exact h

/-- A text with a time of day is not a number of days. -/
theorem days?_of_mem {cs : List Char} (h : 'T' ∈ cs) : days? cs = none := by
  unfold days?
  extract_lets spaced signed
  have hspaced : 'T' ∈ spaced := mem_dropWhile h (by decide)
  clear_value spaced
  have hsigned : 'T' ∈ signed := by
    unfold signed
    split
    · exact List.mem_of_ne_of_mem (by decide) hspaced
    · exact hspaced
  split
  next whole rest hrun =>
  have hrest : 'T' ∈ rest := by
    obtain ⟨_, rfl⟩ := Prod.mk.inj hrun
    exact mem_dropWhile hsigned (by decide)
  split
  next part last hpart =>
  have hlast : 'T' ∈ last := by
    split at hpart
    · obtain ⟨_, rfl⟩ := Prod.mk.inj hpart
      exact mem_dropWhile (List.mem_of_ne_of_mem (by decide) hrest) (by decide)
    · cases hpart
      exact hrest
  have hmore : (last.dropWhile isSpace).isEmpty = false :=
    List.isEmpty_eq_false_iff_exists_mem.mpr ⟨'T', mem_dropWhile hlast (by decide)⟩
  simp [hmore]

theorem take?_cons_of_not_isDigit {c : Char} (hc : c.isDigit = false) (width : Nat)
    (cs : List Char) :
    Digits.take? (width + 1) (c :: cs) = none := if_neg fun h => by simp [hc] at h

/-- A sign before more than four digits is not read as the start of a year. -/
theorem dated?_of_sign {sign : Char} (hsign : sign = '-' ∨ sign = '+') {digits : List Char}
    (hdigits : ∀ c ∈ digits, c.isDigit = true) (hlength : 4 < digits.length) (rest : List Char) :
    dated? (sign :: (digits ++ rest)) = none := by
  unfold dated?
  split
  next negative cs hread =>
  rcases hsign with rfl | rfl
  · cases hread
    obtain ⟨front, e, more, rfl, hfront⟩ : ∃ front e more, digits = front ++ e :: more ∧
        front.length = 4 :=
      ⟨digits.take 4, digits[4], digits.drop 5, by simp, by simp; omega⟩
    have he : e ≠ '-' := by
      rintro rfl
      exact absurd (hdigits '-' (by simp)) (by decide)
    refine Option.bind_eq_none_iff.mpr fun read hyear => ?_
    obtain ⟨year, rest'⟩ := read
    have hrest : rest' = e :: (more ++ rest) := by
      unfold Digits.take? at hyear
      dsimp only at hyear
      split at hyear
      · cases hyear
        simp [hfront]
      · cases hyear
    rw [hrest]
    refine Option.bind_eq_none_iff.mpr fun after hafter => ?_
    rw [Rfc3339.char?, if_neg he.symm] at hafter
    cases hafter
  · cases hread
    rw [take?_cons_of_not_isDigit (by decide)]
    rfl

theorem reading?_ofInstant_of_year {t : Instant} (hyear : 10 ^ 4 ≤ t.date.year.natAbs) :
    reading? (Stamp.ofInstant t).chars = none := by
  have hlength : 4 < (Digits.plain t.date.year.natAbs).length := by
    by_contra hle
    have hlt := (Nat.length_toDigits_le_iff (by omega) (by omega)).mp (Nat.le_of_not_lt hle)
    omega
  have hdigits : ∀ c ∈ Digits.plain t.date.year.natAbs, c.isDigit = true := fun c hc =>
    Nat.isDigit_of_mem_toDigits (by omega) (by omega) hc
  have hwritten : ∃ rest, (Stamp.ofInstant t).chars = (if t.date.year < 0 then '-' else '+') ::
      (Digits.plain t.date.year.natAbs ++ rest) := by
    have hout : ¬ (0 ≤ t.date.year ∧ t.date.year ≤ 9999) := by omega
    have hwide : ¬ t.date.year.natAbs < Nat.pow 10 4 := Nat.not_lt.mpr hyear
    simp only [Stamp.ofInstant, Instant.dateChars, Instant.yearChars, if_neg hout, Digits.atLeast,
      if_neg hwide, List.cons_append, List.append_assoc]
    exact ⟨_, rfl⟩
  obtain ⟨rest, hwritten⟩ := hwritten
  have hsign : (if t.date.year < 0 then '-' else '+') = '-' ∨
      (if t.date.year < 0 then '-' else '+') = '+' := by split <;> simp
  have hclock : clock? ⟨2000, 1, 1⟩ (Stamp.ofInstant t).chars = none := by
    have hnot : Char.isDigit (if t.date.year < 0 then '-' else '+') = false := by split <;> rfl
    rw [hwritten, clock?, take?_cons_of_not_isDigit hnot]
    rfl
  rw [reading?, hclock, hwritten, dated?_of_sign hsign hdigits hlength]
  rfl

/-- The scale lies within the years that have four digits. -/
theorem Covers.year {t : Instant} (h : Covers t) : t.date.year.natAbs < 10 ^ 4 := by
  have hstart := Calendar.yearStart_yearOf (t.nanos / Instant.perDay + Calendar.epoch)
  change Calendar.yearStart t.date.year ≤ _ ∧ _ < Calendar.yearStart (t.date.year + 1) at hstart
  unfold Covers epoch last at h
  unfold Calendar.yearStart Calendar.epoch Instant.perDay Instant.perSecond at hstart
  omega

/-- A stored time has its place on the scale exactly if the scale covers its instant. -/
theorem isSome_millis?_ofInstant (t : Instant) :
    (millis? (.ofInstant t)).isSome = true ↔ Covers t := by
  by_cases hyear : t.date.year.natAbs < 10 ^ 4
  · exact isSome_millis?_of_year hyear
  · have hmark : 'T' ∈ (Stamp.ofInstant t).chars := by simp [Stamp.ofInstant]
    rw [millis?, reading?_ofInstant_of_year (by omega), days?_of_mem hmark]
    exact iff_of_false Bool.false_ne_true fun h => hyear h.year

/-- The milliseconds between two stored times are known exactly if the scale covers both. -/
theorem isSome_between?_ofInstant (since till : Instant) :
    (between? (.ofInstant since) (.ofInstant till)).isSome = true ↔ Covers since ∧ Covers till := by
  rw [← isSome_millis?_ofInstant, ← isSome_millis?_ofInstant, between?]
  cases millis? (.ofInstant till) <;> cases millis? (.ofInstant since) <;> simp

end JulianDay
end AlertDesk
