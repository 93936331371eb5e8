import AlertDesk.Proofs.Dates
import AlertDesk.Time.Stamp
import AlertDesk.Execution
import Mathlib.Algebra.Group.Nat.Defs
import Mathlib.Tactic.ByContra

/-!
Stored times are read back. A time of a year with four digits comes back cut to whole
microseconds, so records that hold such times come back from their rows.
-/
namespace AlertDesk

namespace Digits

theorem char_spec {d : Nat} (h : d < 10) : (char d).isDigit = true ∧ value (char d) = d := by
  have hall : ∀ d < 10, (char d).isDigit = true ∧ value (char d) = d := by decide
  exact hall d h

theorem all_isDigit_padded (width n : Nat) : (padded width n).all Char.isDigit = true := by
  induction width generalizing n with
  | zero => rfl
  | succ width ih =>
    rw [padded, List.all_append, ih]
    simp [(char_spec (Nat.mod_lt n (by omega))).1]

theorem number_padded (width n : Nat) : number (padded width n) = n % 10 ^ width := by
  induction width generalizing n with
  | zero => simp [padded, number, Nat.mod_one]
  | succ width ih =>
    have hdigit : value (char (n % 10)) = n % 10 := (char_spec (Nat.mod_lt n (by omega))).2
    have hrest : (padded width (n / 10)).foldl (fun n d => 10 * n + value d) 0 =
        n / 10 % 10 ^ width := ih (n / 10)
    rw [padded, number, List.foldl_append, hrest, List.foldl_cons, List.foldl_nil, hdigit,
      Nat.pow_succ', Nat.mod_mul]
    omega

/-- Digits of full width are read back, whatever follows them. -/
theorem take?_padded {width n : Nat} (h : n < 10 ^ width) (rest : List Char) :
    take? width (padded width n ++ rest) = some (n, rest) := by
  have hlen := padded_length width n
  have htake : (padded width n ++ rest).take width = padded width n := by
    rw [List.take_append_of_le_length (by omega), List.take_of_length_le (by omega)]
  have hdrop : (padded width n ++ rest).drop width = rest := by
    rw [List.drop_append_of_le_length (by omega), List.drop_of_length_le (by omega),
      List.nil_append]
  simp only [take?, htake, hdrop, hlen, all_isDigit_padded, and_self, if_true, number_padded,
    Nat.mod_eq_of_lt h]

theorem run_padded (width n : Nat) {c : Char} (hc : c.isDigit = false) (rest : List Char) :
    run (padded width n ++ c :: rest) = (padded width n, c :: rest) := by
  have hall : ∀ d ∈ padded width n, d.isDigit = true :=
    List.all_eq_true.mp (all_isDigit_padded width n)
  simp only [run, List.takeWhile_append_of_pos hall, List.dropWhile_append_of_pos hall,
    List.takeWhile_cons, List.dropWhile_cons, hc, Bool.false_eq_true, if_false, List.append_nil]

end Digits

/-- Its year has four digits. -/
def Instant.Storable (t : Instant) : Prop := 0 ≤ t.date.year ∧ t.date.year ≤ 9999

instance (t : Instant) : Decidable t.Storable := inferInstanceAs (Decidable (_ ∧ _))

/-- From the start of the year 0 to the end of the year 9999. -/
theorem Instant.Storable.bounds {t : Instant} (h : t.Storable) :
    -62167219200000000000 ≤ t.nanos ∧ t.nanos < 253402300800000000000 := by
  obtain ⟨hlow, hhigh⟩ := h
  have hyear := Calendar.yearStart_yearOf (t.nanos / perDay + Calendar.epoch)
  change Calendar.yearStart t.date.year ≤ _ ∧ _ < Calendar.yearStart (t.date.year + 1) at hyear
  unfold Calendar.yearStart Calendar.epoch perDay perSecond at hyear
  omega

theorem Instant.earliest_nanos : earliest.nanos = -8334601228800000000000 := by decide

theorem Instant.latest_nanos : latest.nanos = 8210266876799999999999 := by decide

namespace Stamp

def reading (t : Instant) : Rfc3339.Reading where
  date := t.date
  hour := t.secondOfDay / 3600
  minute := t.secondOfDay / 60 % 60
  second := t.secondOfDay % 60
  nano := t.nanoOfSecond / 1000 * 1000
  offset := 0

theorem nanoOfDay_lt (t : Instant) : t.nanoOfDay < 86400 * 1000000000 := by
  unfold Instant.nanoOfDay Instant.perDay Instant.perSecond
  omega

theorem secondOfDay_lt (t : Instant) : t.secondOfDay < 86400 := by
  have h := nanoOfDay_lt t
  unfold Instant.secondOfDay
  omega

theorem fraction?_padded {n : Nat} (h : n < 1000000) {c : Char} (hc : c.isDigit = false)
    (rest : List Char) :
    Rfc3339.fraction? ('.' :: (Digits.padded 6 n ++ c :: rest)) = some (n * 1000, c :: rest) := by
  have hlen := Digits.padded_length 6 n
  have htake : (Digits.padded 6 n).take 9 = Digits.padded 6 n :=
    List.take_of_length_le (by omega)
  have hne : (Digits.padded 6 n).isEmpty = false := by
    rw [List.isEmpty_eq_false_iff_exists_mem]
    exact ⟨_, List.getLast_mem (by rw [ne_eq, ← List.length_eq_zero_iff]; omega)⟩
  have hnumber : Digits.number (Digits.padded 6 n) = n := by
    rw [Digits.number_padded]
    exact Nat.mod_eq_of_lt h
  simp only [Rfc3339.fraction?, Digits.run_padded 6 n hc, hne, htake, hnumber, Bool.false_eq_true,
    if_false]
  exact congrArg (fun k => some (n * Nat.pow 10 (9 - k), c :: rest)) hlen

/-- The strict form, with six digits after the point and in UTC, is read back. -/
theorem strictReading?_padded {year month day hour minute second micros : Nat}
    (hyear : year < 10 ^ 4) (hmonth : month < 10 ^ 2) (hday : day < 10 ^ 2) (hhour : hour < 10 ^ 2)
    (hminute : minute < 10 ^ 2) (hsecond : second < 10 ^ 2) (hmicros : micros < 1000000) :
    Rfc3339.strictReading? (Digits.padded 4 year ++ '-' :: (Digits.padded 2 month ++
      '-' :: (Digits.padded 2 day ++ 'T' :: (Digits.padded 2 hour ++
        ':' :: (Digits.padded 2 minute ++ ':' :: (Digits.padded 2 second ++
          '.' :: (Digits.padded 6 micros ++ ['Z']))))))) =
      some ⟨⟨year, month, day⟩, hour, minute, second, micros * 1000, 0⟩ := by
  have hchar (c : Char) (rest : List Char) : Rfc3339.char? c (c :: rest) = some rest := if_pos rfl
  have hfraction := fraction?_padded hmicros (show 'Z'.isDigit = false by decide) []
  refine Option.bind_eq_some_iff.mpr ⟨_, Digits.take?_padded hyear _, ?_⟩
  refine Option.bind_eq_some_iff.mpr ⟨_, hchar '-' _, ?_⟩
  refine Option.bind_eq_some_iff.mpr ⟨_, Digits.take?_padded hmonth _, ?_⟩
  refine Option.bind_eq_some_iff.mpr ⟨_, hchar '-' _, ?_⟩
  refine Option.bind_eq_some_iff.mpr ⟨_, Digits.take?_padded hday _, ?_⟩
  refine Option.bind_eq_some_iff.mpr ⟨(), rfl, ?_⟩
  refine Option.bind_eq_some_iff.mpr ⟨_, Digits.take?_padded hhour _, ?_⟩
  refine Option.bind_eq_some_iff.mpr ⟨_, hchar ':' _, ?_⟩
  refine Option.bind_eq_some_iff.mpr ⟨_, Digits.take?_padded hminute _, ?_⟩
  refine Option.bind_eq_some_iff.mpr ⟨_, hchar ':' _, ?_⟩
  refine Option.bind_eq_some_iff.mpr ⟨_, Digits.take?_padded hsecond _, ?_⟩
  exact Option.bind_eq_some_iff.mpr ⟨_, hfraction, rfl⟩

/-- The fields that are written are as many digits as they take. -/
theorem fields_lt (t : Instant) : t.date.month < 10 ^ 2 ∧ t.date.day < 10 ^ 2 ∧
    t.secondOfDay / 3600 < 10 ^ 2 ∧ t.nanoOfSecond / 1000 < 10 ^ 6 := by
  have hvalid := (Date.ofDay_spec (t.nanos / Instant.perDay)).1
  change t.date.isValid = true at hvalid
  simp only [Date.isValid, Bool.and_eq_true, decide_eq_true_eq] at hvalid
  have hsecond := secondOfDay_lt t
  have hlength : Calendar.monthLength (Calendar.isLeap t.date.year) t.date.month ≤ 31 := by
    unfold Calendar.monthLength
    split <;> try split
    all_goals omega
  have hnano : t.nanoOfSecond / 1000 < 10 ^ 6 := by
    have hlt := Nat.mod_lt t.nanoOfDay (show 0 < 1000000000 by omega)
    unfold Instant.nanoOfSecond
    omega
  exact ⟨by omega, by omega, by omega, hnano⟩

theorem chars_ofInstant {t : Instant} (h : t.Storable) : (ofInstant t).chars =
    Digits.padded 4 t.date.year.toNat ++ '-' :: (Digits.padded 2 t.date.month ++
      '-' :: (Digits.padded 2 t.date.day ++ 'T' :: (Digits.padded 2 (t.secondOfDay / 3600) ++
        ':' :: (Digits.padded 2 (t.secondOfDay / 60 % 60) ++
          ':' :: (Digits.padded 2 (t.secondOfDay % 60) ++
            '.' :: (Digits.padded 6 (t.nanoOfSecond / 1000) ++ ['Z'])))))) := by
  obtain ⟨hlow, hhigh⟩ := h
  simp only [ofInstant, Instant.dateChars, Instant.yearChars, Instant.clockChars, hlow, hhigh,
    and_self, if_true, List.append_assoc, List.cons_append]

theorem strictReading?_ofInstant {t : Instant} (h : t.Storable) :
    Rfc3339.strictReading? (ofInstant t).chars = some (reading t) := by
  obtain ⟨hlow, hhigh⟩ := h
  obtain ⟨hmonth, hday, hhour, hmicros⟩ := fields_lt t
  have hyear : t.date.year.toNat < 10 ^ 4 := by omega
  have hdate : (⟨t.date.year.toNat, t.date.month, t.date.day⟩ : Date) = t.date := by
    rw [Int.toNat_of_nonneg hlow]
  rw [chars_ofInstant ⟨hlow, hhigh⟩,
    strictReading?_padded hyear hmonth hday hhour (by omega) (by omega) hmicros, hdate, reading]

theorem instant?_ofInstant {t : Instant} (h : t.Storable) :
    (ofInstant t).instant? = some ⟨t.nanos / 1000 * 1000⟩ := by
  obtain ⟨hvalid, hday⟩ := Date.ofDay_spec (t.nanos / Instant.perDay)
  change t.date.isValid = true at hvalid
  change t.date.dayNumber = _ at hday
  have hsecond := secondOfDay_lt t
  have hnanos : Instant.ofSeconds (t.date.dayNumber * 86400 + (t.secondOfDay / 3600 : Nat) * 3600 +
      (t.secondOfDay / 60 % 60 : Nat) * 60 + (t.secondOfDay % 60 : Nat) - 0)
      (t.nanoOfSecond / 1000 * 1000 : Nat) = ⟨t.nanos / 1000 * 1000⟩ := by
    rw [hday]
    unfold Instant.ofSeconds Instant.secondOfDay Instant.nanoOfSecond Instant.nanoOfDay
      Instant.perDay Instant.perSecond
    rw [Instant.mk.injEq]
    omega
  have hrange : (⟨t.nanos / 1000 * 1000⟩ : Instant).inRange = true := by
    obtain ⟨hlow, hhigh⟩ := h.bounds
    have hlower : Instant.earliest ≤ ⟨t.nanos / 1000 * 1000⟩ := by
      change Instant.earliest.nanos ≤ t.nanos / 1000 * 1000
      rw [Instant.earliest_nanos]
      omega
    have hupper : (⟨t.nanos / 1000 * 1000⟩ : Instant) ≤ Instant.latest := by
      change t.nanos / 1000 * 1000 ≤ Instant.latest.nanos
      rw [Instant.latest_nanos]
      omega
    simp [Instant.inRange, hlower, hupper]
  have hfields : t.secondOfDay / 3600 < 24 ∧ t.secondOfDay / 60 % 60 < 60 ∧
      t.secondOfDay % 60 ≤ 60 := by omega
  simp only [instant?, Rfc3339.strict?, strictReading?_ofInstant h, Option.bind_eq_bind,
    Option.bind_some, Rfc3339.Reading.instant?, reading, hnanos, hvalid, hrange, hfields]
  rfl

/-! ### Rows -/

def Readable (s : Stamp) : Prop := s.instant?.isSome = true

def named (s : Stamp) : Instant := s.instant?.getD default

theorem readable_ofInstant {t : Instant} (h : t.Storable) : (ofInstant t).Readable := by
  rw [Readable, instant?_ofInstant h]
  rfl

/-- What is cut off is not written. -/
theorem ofInstant_cut (t : Instant) : ofInstant ⟨t.nanos / 1000 * 1000⟩ = ofInstant t := by
  have hdate : Instant.date ⟨t.nanos / 1000 * 1000⟩ = t.date := by
    have hday : t.nanos / 1000 * 1000 / Instant.perDay = t.nanos / Instant.perDay := by
      unfold Instant.perDay Instant.perSecond
      omega
    simp only [Instant.date, hday]
  have hcut : Instant.nanoOfDay ⟨t.nanos / 1000 * 1000⟩ = t.nanoOfDay / 1000 * 1000 := by
    change (t.nanos / 1000 * 1000 % Instant.perDay).toNat =
      (t.nanos % Instant.perDay).toNat / 1000 * 1000
    unfold Instant.perDay Instant.perSecond
    omega
  have hsecond : Instant.secondOfDay ⟨t.nanos / 1000 * 1000⟩ = t.secondOfDay := by
    rw [Instant.secondOfDay, hcut, Instant.secondOfDay]
    omega
  have hmicros : Instant.nanoOfSecond ⟨t.nanos / 1000 * 1000⟩ / 1000 = t.nanoOfSecond / 1000 := by
    rw [Instant.nanoOfSecond, hcut, Instant.nanoOfSecond]
    omega
  rw [ofInstant, hdate, hsecond, hmicros, ofInstant]

/-- A year that is written with its sign is not read. -/
theorem storable_of_readable {t : Instant} (h : (ofInstant t).Readable) : t.Storable := by
  by_contra hout
  have hsigned : Instant.yearChars t.date.year =
      (if t.date.year < 0 then '-' else '+') :: Digits.atLeast 4 t.date.year.natAbs :=
    if_neg hout
  have hsign : Char.isDigit (if t.date.year < 0 then '-' else '+') = false := by
    split <;> rfl
  have hyear : Digits.take? 4 (ofInstant t).chars = none := by
    rw [ofInstant, Instant.dateChars, hsigned]
    exact if_neg fun hdigits => by simp [hsign] at hdigits
  have hnone : (ofInstant t).instant? = none := by
    unfold instant? Rfc3339.strict? Rfc3339.strictReading?
    rw [hyear]
    rfl
  rw [Readable, hnone] at h
  cases h

/-- Columns that may be empty: an empty one can be read, and so can one that holds a readable
time. -/
theorem readable_none : ∀ s ∈ (none : Option Stamp), s.Readable := by simp

theorem readable_some {s : Stamp} (h : s.Readable) : ∀ t ∈ some s, t.Readable := by simpa using h

theorem read_eq_ok {s : Stamp} (h : s.Readable) (column : String) :
    s.read column = .ok s.named := by
  obtain ⟨t, ht⟩ := Option.isSome_iff_exists.mp h
  simp [read, named, ht]

theorem read?_eq_ok {o : Option Stamp} (h : ∀ s ∈ o, s.Readable) (column : String) :
    read? column o = .ok (o.map named) := by
  cases o with
  | none => rfl
  | some s =>
    rw [read?, read_eq_ok (h s rfl)]
    rfl

/-- A time is readable, or the attempt to read it fails for the store. -/
theorem read_cases (s : Stamp) (column : String) :
    (∃ e, e.isRetryable = true ∧ s.read column = .error e) ∨ s.Readable := by
  cases h : s.instant? with
  | none => exact .inl ⟨_, rfl, by rw [read, h]⟩
  | some t => exact .inr (by rw [Readable, h]; rfl)

theorem read?_cases (o : Option Stamp) (column : String) :
    (∃ e, e.isRetryable = true ∧ read? column o = .error e) ∨ ∀ s ∈ o, s.Readable := by
  cases o with
  | none => exact .inr readable_none
  | some s =>
    rcases s.read_cases column with ⟨e, he, h⟩ | hreadable
    · exact .inl ⟨e, he, by rw [read?, h]; rfl⟩
    · exact .inr (readable_some hreadable)

/-- Two times that stand in one row are read, or the row fails for the store. -/
theorem read_both {α : Type} (startedAt completedAt : Option Stamp)
    (f : Option Instant → Option Instant → α) :
    (∃ e : Failure, e.isRetryable = true ∧ (do
      let a ← read? "started_at" startedAt
      let b ← read? "completed_at" completedAt
      return f a b) = Except.error e) ∨
    ∃ a b, (do
      let a ← read? "started_at" startedAt
      let b ← read? "completed_at" completedAt
      return f a b) = (Except.ok (f a b) : Except Failure α) := by
  rcases read?_cases startedAt "started_at" with ⟨e, he, h⟩ | hstart
  · exact .inl ⟨e, he, by rw [h]; rfl⟩
  rcases read?_cases completedAt "completed_at" with ⟨e, he, h⟩ | hend
  · exact .inl ⟨e, he, by rw [read?_eq_ok hstart, h]; rfl⟩
  · exact .inr ⟨_, _, by rw [read?_eq_ok hstart, read?_eq_ok hend]; rfl⟩

end Stamp

namespace SessionRow

structure Readable (r : SessionRow) : Prop where
  createdAt : r.createdAt.Readable
  startedAt : ∀ s ∈ r.startedAt, s.Readable
  lastInteractionAt : ∀ s ∈ r.lastInteractionAt, s.Readable
  completedAt : ∀ s ∈ r.completedAt, s.Readable
  deletedAt : ∀ s ∈ r.deletedAt, s.Readable

theorem read_eq_ok {r : SessionRow} (h : r.Readable) : r.read = .ok (r.map Stamp.named) := by
  simp only [SessionRow.read, Stamp.read_eq_ok h.createdAt, Stamp.read?_eq_ok h.startedAt,
    Stamp.read?_eq_ok h.lastInteractionAt, Stamp.read?_eq_ok h.completedAt,
    Stamp.read?_eq_ok h.deletedAt]
  rfl

theorem read_cases (r : SessionRow) :
    (∃ e, e.isRetryable = true ∧ r.read = .error e) ∨ r.Readable := by
  rcases Stamp.read_cases r.createdAt "created_at" with ⟨e, he, h⟩ | hcreated
  · exact .inl ⟨e, he, by rw [SessionRow.read, h]; rfl⟩
  rcases Stamp.read?_cases r.startedAt "started_at" with ⟨e, he, h⟩ | hstarted
  · exact .inl ⟨e, he, by rw [SessionRow.read, Stamp.read_eq_ok hcreated, h]; rfl⟩
  rcases Stamp.read?_cases r.lastInteractionAt "last_interaction_at" with ⟨e, he, h⟩ | hlast
  · refine .inl ⟨e, he, ?_⟩
    rw [SessionRow.read, Stamp.read_eq_ok hcreated, Stamp.read?_eq_ok hstarted, h]
    rfl
  rcases Stamp.read?_cases r.completedAt "completed_at" with ⟨e, he, h⟩ | hcompleted
  · refine .inl ⟨e, he, ?_⟩
    rw [SessionRow.read, Stamp.read_eq_ok hcreated, Stamp.read?_eq_ok hstarted,
      Stamp.read?_eq_ok hlast, h]
    rfl
  rcases Stamp.read?_cases r.deletedAt "deleted_at" with ⟨e, he, h⟩ | hdeleted
  · refine .inl ⟨e, he, ?_⟩
    rw [SessionRow.read, Stamp.read_eq_ok hcreated, Stamp.read?_eq_ok hstarted,
      Stamp.read?_eq_ok hlast, Stamp.read?_eq_ok hcompleted, h]
    rfl
  exact .inr ⟨hcreated, hstarted, hlast, hcompleted, hdeleted⟩

theorem read_error {r : SessionRow} {e : Failure} (h : r.read = .error e) :
    e.isRetryable = true := by
  rcases r.read_cases with ⟨e', he', h'⟩ | hreadable
  · rw [h] at h'
    cases h'
    exact he'
  · rw [read_eq_ok hreadable] at h
    cases h

/-- A row that is read is readable, and the record says what the row says. -/
theorem read_ok {r : SessionRow} {session : Session} (h : r.read = .ok session) :
    r.Readable ∧ session = r.map Stamp.named := by
  rcases r.read_cases with ⟨_, _, h'⟩ | hreadable
  · rw [h] at h'
    cases h'
  · rw [read_eq_ok hreadable] at h
    exact ⟨hreadable, (Except.ok.inj h).symm⟩

end SessionRow

namespace StageRow

structure Readable (r : StageRow) : Prop where
  startedAt : ∀ s ∈ r.startedAt, s.Readable
  completedAt : ∀ s ∈ r.completedAt, s.Readable

/-- A row is read with all that it says apart from its times, or fails for the store. -/
theorem read_cases (r : StageRow) :
    (∃ e, e.isRetryable = true ∧ r.read = .error e) ∨
    ∃ stage : Stage, r.read = .ok stage ∧ stage.id = r.id ∧ stage.status = r.status ∧
      stage.errorMessage = r.errorMessage ∧ stage.policy = r.policy ∧
      stage.sessionId = r.sessionId := by
  rcases Stamp.read_both r.startedAt r.completedAt _ with ⟨e, he, h⟩ | ⟨a, b, h⟩
  · exact .inl ⟨e, he, h⟩
  · exact .inr ⟨_, h, rfl, rfl, rfl, rfl, rfl⟩

theorem read_error {r : StageRow} {e : Failure} (h : r.read = .error e) : e.isRetryable = true := by
  rcases r.read_cases with ⟨e', he', h'⟩ | ⟨_, h', _⟩
  · rw [h] at h'
    cases h'
    exact he'
  · rw [h] at h'
    cases h'

/-- What a record shows of its row. -/
theorem read_ok {r : StageRow} {stage : Stage} (h : r.read = .ok stage) :
    stage.id = r.id ∧ stage.status = r.status ∧ stage.errorMessage = r.errorMessage ∧
      stage.policy = r.policy ∧ stage.sessionId = r.sessionId := by
  rcases r.read_cases with ⟨_, _, h'⟩ | ⟨_, h', hfields⟩
  · rw [h] at h'
    cases h'
  · rw [h] at h'
    cases h'
    exact hfields

theorem read_eq_ok {r : StageRow} (h : r.Readable) : r.read = .ok (r.map Stamp.named) := by
  simp only [StageRow.read, Stamp.read?_eq_ok h.startedAt, Stamp.read?_eq_ok h.completedAt]
  rfl

/-- A row that is read is readable, and the record says what the row says. -/
theorem read_eq_map {r : StageRow} {stage : Stage} (h : r.read = .ok stage) :
    r.Readable ∧ stage = r.map Stamp.named := by
  have hreadable : r.Readable := by
    rcases Stamp.read?_cases r.startedAt "started_at" with ⟨e, _, hstart⟩ | hstart
    · rw [StageRow.read, hstart] at h
      cases h
    rcases Stamp.read?_cases r.completedAt "completed_at" with ⟨e, _, hend⟩ | hend
    · rw [StageRow.read, Stamp.read?_eq_ok hstart, hend] at h
      cases h
    exact ⟨hstart, hend⟩
  rw [read_eq_ok hreadable] at h
  exact ⟨hreadable, (Except.ok.inj h).symm⟩

end StageRow

namespace ExecutionRow

structure Readable (r : ExecutionRow) : Prop where
  startedAt : ∀ s ∈ r.startedAt, s.Readable
  completedAt : ∀ s ∈ r.completedAt, s.Readable

theorem read_cases (r : ExecutionRow) :
    (∃ e, e.isRetryable = true ∧ r.read = .error e) ∨
    ∃ execution : Execution, r.read = .ok execution ∧ execution.id = r.id ∧
      execution.stageId = r.stageId ∧ execution.parentId = r.parentId := by
  rcases Stamp.read_both r.startedAt r.completedAt _ with ⟨e, he, h⟩ | ⟨a, b, h⟩
  · exact .inl ⟨e, he, h⟩
  · exact .inr ⟨_, h, rfl, rfl, rfl⟩

theorem read_error {r : ExecutionRow} {e : Failure} (h : r.read = .error e) :
    e.isRetryable = true := by
  rcases r.read_cases with ⟨e', he', h'⟩ | ⟨_, h', _⟩
  · rw [h] at h'
    cases h'
    exact he'
  · rw [h] at h'
    cases h'

/-- What a record shows of its row. -/
theorem read_ok {r : ExecutionRow} {execution : Execution} (h : r.read = .ok execution) :
    execution.id = r.id ∧ execution.stageId = r.stageId ∧ execution.parentId = r.parentId := by
  rcases r.read_cases with ⟨_, _, h'⟩ | ⟨_, h', hfields⟩
  · rw [h] at h'
    cases h'
  · rw [h] at h'
    cases h'
    exact hfields

theorem read_eq_ok {r : ExecutionRow} (h : r.Readable) : r.read = .ok (r.map Stamp.named) := by
  simp only [ExecutionRow.read, Stamp.read?_eq_ok h.startedAt, Stamp.read?_eq_ok h.completedAt]
  rfl

end ExecutionRow
end AlertDesk
