import AlertDesk.Proofs.StoredTimes
import Mathlib.Data.List.Lex
import Mathlib.Data.Char

/-!
Stored times in order. Numbers of one width are ordered as their digits are, and the fields of a
time stand in the text from the largest to the smallest; so within the years that have four digits
the earlier of two times has the smaller text, if they differ by what is written of them. A year
before these has a sign, which is smaller than any digit.
-/
namespace AlertDesk

/-! ### Digits and fields -/

namespace Digits

theorem isDigit_bounds {c : Char} (h : c.isDigit = true) : 48 ≤ c.toNat ∧ c.toNat ≤ 57 := by
  simp only [Char.isDigit, Bool.and_eq_true, decide_eq_true_eq, ge_iff_le,
    UInt32.le_iff_toNat_le] at h
  exact h

theorem char_lt_char {c d : Nat} (hc : c < 10) (hd : d < 10) : char c < char d ↔ c < d := by
  have hall : ∀ c < 10, ∀ d < 10, (char c < char d ↔ c < d) := by decide
  exact hall c hc d hd

theorem char_inj {c d : Nat} (hc : c < 10) (hd : d < 10) : char c = char d ↔ c = d := by
  have hall : ∀ c < 10, ∀ d < 10, (char c = char d ↔ c = d) := by decide
  exact hall c hc d hd

/-- Two numbers of one width come in order, or are equal and what follows them decides. -/
theorem padded_append_lt_iff {width m n : Nat} (hm : m < 10 ^ width) (hn : n < 10 ^ width)
    (xs ys : List Char) :
    padded width m ++ xs < padded width n ++ ys ↔ m < n ∨ m = n ∧ xs < ys := by
  induction width generalizing m n xs ys with
  | zero =>
    have hsame : m = n := by omega
    simp [padded, hsame]
  | succ width ih =>
    have hm' : m / 10 < 10 ^ width := by omega
    have hn' : n / 10 < 10 ^ width := by omega
    have hlast := char_lt_char (Nat.mod_lt m (show 0 < 10 by omega)) (Nat.mod_lt n (by omega))
    have hsame := char_inj (Nat.mod_lt m (show 0 < 10 by omega)) (Nat.mod_lt n (by omega))
    rw [padded, padded, List.append_assoc, List.append_assoc, ih hm' hn', List.singleton_append,
      List.singleton_append, List.cons_lt_cons_iff, hlast, hsame]
    by_cases hrest : xs < ys
    · simp only [hrest, and_true]
      omega
    · simp only [hrest, and_false, or_false]
      omega

end Digits

/-! ### Dates -/

namespace Calendar

theorem yearStart_lt {year year' : Int} (h : year < year') : yearStart year < yearStart year' := by
  unfold yearStart
  omega

theorem yearOf_mono {day day' : Int} (h : day ≤ day') : yearOf day ≤ yearOf day' := by
  by_contra hlater
  have hyear := yearStart_yearOf day
  have hyear' := yearStart_yearOf day'
  rcases Int.lt_or_eq_of_le (show yearOf day' + 1 ≤ yearOf day by omega) with hlt | heq
  · have hstart := yearStart_lt hlt
    omega
  · rw [heq] at hyear'
    omega

theorem monthOf_mono (leap : Bool) {day day' : Nat} (h : day ≤ day') :
    monthOf leap day ≤ monthOf leap day' := by
  rw [monthOf, monthOf, ← List.countP_eq_length_filter, ← List.countP_eq_length_filter]
  apply List.countP_mono_left
  intro month _ hmonth
  simp only [decide_eq_true_eq] at hmonth ⊢
  omega

end Calendar

namespace Date

open Calendar

/-- Of two days, the earlier has the earlier year, or in one year the earlier month, or in one month
the earlier day. -/
theorem ofDay_lt {m n : Int} (h : m < n) : (ofDay m).year < (ofDay n).year ∨
    (ofDay m).year = (ofDay n).year ∧ ((ofDay m).month < (ofDay n).month ∨
      (ofDay m).month = (ofDay n).month ∧ (ofDay m).day < (ofDay n).day) := by
  have hyear : (ofDay m).year ≤ (ofDay n).year := yearOf_mono (by omega)
  rcases Int.lt_or_eq_of_le hyear with hlt | hsame
  · exact .inl hlt
  · refine .inr ⟨hsame, ?_⟩
    have hmonth : (ofDay m).month ≤ (ofDay n).month := by
      change yearOf (m + epoch) = yearOf (n + epoch) at hsame
      simp only [ofDay, hsame]
      exact monthOf_mono _ (by omega)
    rcases Nat.lt_or_eq_of_le hmonth with hlt | hsame'
    · exact .inl hlt
    · refine .inr ⟨hsame', ?_⟩
      have hm := (ofDay_spec m).2
      have hn := (ofDay_spec n).2
      simp only [dayNumber, hsame, hsame'] at hm hn
      omega

end Date

namespace Instant

/-- Cut down to whole microseconds, as it is stored. -/
def cut (t : Instant) : Instant := ⟨t.nanos / 1000 * 1000⟩

theorem year_mono {a b : Instant} (h : a.nanos ≤ b.nanos) : a.date.year ≤ b.date.year := by
  apply Calendar.yearOf_mono
  unfold perDay perSecond
  omega

end Instant

namespace Stamp

variable {a b : Instant}

/-- The fields of the earlier time come first. -/
theorem ofInstant_lt_of_lt (ha : a.Storable) (hb : b.Storable)
    (h : a.nanos / 1000 < b.nanos / 1000) : ofInstant a < ofInstant b := by
  obtain ⟨hmonth, hday, hhour, hmicros⟩ := fields_lt a
  obtain ⟨hmonth', hday', hhour', hmicros'⟩ := fields_lt b
  obtain ⟨hlow, hhigh⟩ := ha
  obtain ⟨hlow', hhigh'⟩ := hb
  change (ofInstant a).chars < (ofInstant b).chars
  rw [chars_ofInstant ⟨hlow, hhigh⟩, chars_ofInstant ⟨hlow', hhigh'⟩,
    Digits.padded_append_lt_iff (by omega) (by omega), List.cons_lt_cons_iff,
    Digits.padded_append_lt_iff hmonth hmonth', List.cons_lt_cons_iff,
    Digits.padded_append_lt_iff hday hday', List.cons_lt_cons_iff,
    Digits.padded_append_lt_iff hhour hhour', List.cons_lt_cons_iff,
    Digits.padded_append_lt_iff (by omega) (by omega), List.cons_lt_cons_iff,
    Digits.padded_append_lt_iff (by omega) (by omega), List.cons_lt_cons_iff,
    Digits.padded_append_lt_iff hmicros hmicros']
  simp only [lt_irrefl, false_or, true_and, and_false, or_false]
  have hdays : a.nanos / Instant.perDay ≤ b.nanos / Instant.perDay := by
    unfold Instant.perDay Instant.perSecond
    omega
  rcases Int.lt_or_eq_of_le hdays with hearlier | hsame
  · have hdate : a.date.year < b.date.year ∨ a.date.year = b.date.year ∧
        (a.date.month < b.date.month ∨
          a.date.month = b.date.month ∧ a.date.day < b.date.day) := Date.ofDay_lt hearlier
    omega
  · have hdate : a.date = b.date := congrArg Date.ofDay hsame
    have hclock : a.nanoOfDay / 1000 < b.nanoOfDay / 1000 := by
      unfold Instant.nanoOfDay
      unfold Instant.perDay Instant.perSecond at hsame ⊢
      omega
    unfold Instant.secondOfDay Instant.nanoOfSecond
    rw [hdate]
    omega

theorem ofInstant_lt_iff (ha : a.Storable) (hb : b.Storable) :
    ofInstant a < ofInstant b ↔ a.cut < b.cut := by
  have hcut : a.cut < b.cut ↔ a.nanos / 1000 < b.nanos / 1000 := by
    change a.nanos / 1000 * 1000 < b.nanos / 1000 * 1000 ↔ _
    omega
  rw [hcut]
  rcases Int.lt_trichotomy (a.nanos / 1000) (b.nanos / 1000) with hlt | heq | hgt
  · exact iff_of_true (ofInstant_lt_of_lt ha hb hlt) hlt
  · have hsame : ofInstant a = ofInstant b := by
      rw [← ofInstant_cut a, heq, ofInstant_cut b]
    rw [hsame]
    exact iff_of_false (lt_irrefl (ofInstant b).chars) (by omega)
  · exact iff_of_false (lt_asymm (ofInstant_lt_of_lt hb ha hgt) : ¬ (ofInstant a).chars < _)
      (by omega)

/-- A sign is smaller than any digit. -/
theorem ofInstant_lt_of_year_neg (ha : a.date.year < 0) (hb : b.Storable) :
    ofInstant a < ofInstant b := by
  have hsigned : Instant.yearChars a.date.year = '-' :: Digits.atLeast 4 a.date.year.natAbs := by
    rw [Instant.yearChars, if_neg (by omega), if_pos ha]
  change (ofInstant a).chars < (ofInstant b).chars
  rw [chars_ofInstant hb, ofInstant, Instant.dateChars, hsigned]
  cases hdigits : Digits.padded 4 b.date.year.toNat with
  | nil =>
    have hlen := Digits.padded_length 4 b.date.year.toNat
    rw [hdigits] at hlen
    cases hlen
  | cons c cs =>
    have hall := Digits.all_isDigit_padded 4 b.date.year.toNat
    rw [hdigits, List.all_cons, Bool.and_eq_true] at hall
    refine List.cons_lt_cons_iff.mpr (.inl ?_)
    have hdigit : '-'.toNat < c.toNat :=
      Nat.lt_of_lt_of_le (by decide) (Digits.isDigit_bounds hall.1).1
    exact hdigit

/-- A time that is compared with stored ones may lie before them all. -/
theorem ofInstant_lt_iff_of_year_le (ha : a.Storable) (hb : b.date.year ≤ 9999) :
    ofInstant a < ofInstant b ↔ a.cut < b.cut := by
  by_cases hyear : 0 ≤ b.date.year
  · exact ofInstant_lt_iff ha ⟨hyear, hb⟩
  · have hbefore := ofInstant_lt_of_year_neg (by omega : b.date.year < 0) ha
    have hlt : b.nanos < a.nanos := by
      by_contra hnot
      have hmono : a.date.year ≤ b.date.year := Instant.year_mono (by omega)
      have := ha.1
      omega
    refine iff_of_false (lt_asymm hbefore : ¬ (ofInstant a).chars < _) ?_
    change ¬ a.nanos / 1000 * 1000 < b.nanos / 1000 * 1000
    omega

/-! ### Bytes -/

def bytes (s : Stamp) : List UInt8 := s.text.toUTF8.data.toList

def IsAscii (s : Stamp) : Prop := ∀ c ∈ s.chars, c.toNat ≤ 127

theorem bytes_eq {s : Stamp} (hs : s.IsAscii) : s.bytes = s.chars.map fun c => .ofNat c.toNat := by
  have hbytes : s.bytes = s.chars.flatMap String.utf8EncodeChar := List.toList_data_toByteArray
  rw [hbytes, List.map_eq_flatMap]
  refine List.flatMap_congr fun c hc => ?_
  exact if_pos (hs c hc)

/-- Texts of such characters are in the order of their bytes. -/
theorem bytes_lt_iff {s t : Stamp} (hs : s.IsAscii) (ht : t.IsAscii) :
    s.bytes < t.bytes ↔ s < t := by
  rw [bytes_eq hs, bytes_eq ht]
  change _ ↔ s.chars < t.chars
  obtain ⟨cs⟩ := s
  obtain ⟨ds⟩ := t
  induction cs generalizing ds with
  | nil => cases ds <;> simp
  | cons c cs ih =>
    cases ds with
    | nil => simp
    | cons d ds =>
      simp only [IsAscii, List.forall_mem_cons] at hs ht
      have hfirst : (UInt8.ofNat c.toNat < UInt8.ofNat d.toNat ↔ c < d) ∧
          (UInt8.ofNat c.toNat = UInt8.ofNat d.toNat ↔ c = d) := by
        have hc : c.toNat % 256 = c.toNat := Nat.mod_eq_of_lt (by omega)
        have hd : d.toNat % 256 = d.toNat := Nat.mod_eq_of_lt (by omega)
        constructor
        · rw [UInt8.lt_iff_toNat_lt, UInt8.toNat_ofNat', UInt8.toNat_ofNat', hc, hd]
          exact Iff.rfl
        · rw [← UInt8.toNat_inj, UInt8.toNat_ofNat', UInt8.toNat_ofNat', hc, hd]
          exact Char.toNat_inj
      rw [List.map_cons, List.map_cons, List.cons_lt_cons_iff, List.cons_lt_cons_iff, hfirst.1,
        hfirst.2, ih hs.2 ds ht.2]

theorem isAscii_of_isDigit {c : Char} (h : c.isDigit = true) : c.toNat ≤ 127 := by
  have hbounds := Digits.isDigit_bounds h
  omega

theorem isAscii_yearChars (year : Int) : ∀ c ∈ Instant.yearChars year, c.toNat ≤ 127 := by
  intro c hc
  unfold Instant.yearChars at hc
  split at hc
  · exact isAscii_of_isDigit (List.all_eq_true.mp (Digits.all_isDigit_padded _ _) c hc)
  · rcases List.mem_cons.mp hc with rfl | hdigit
    · split <;> decide
    · unfold Digits.atLeast at hdigit
      split at hdigit
      · exact isAscii_of_isDigit (List.all_eq_true.mp (Digits.all_isDigit_padded _ _) c hdigit)
      · exact isAscii_of_isDigit (Nat.isDigit_of_mem_toDigits (by omega) (by omega) hdigit)

theorem isAscii_ofInstant (t : Instant) : (ofInstant t).IsAscii := by
  have hyear := isAscii_yearChars t.date.year
  have hdigits (width n : Nat) : ∀ c ∈ Digits.padded width n, c.toNat ≤ 127 := fun c hc =>
    isAscii_of_isDigit (List.all_eq_true.mp (Digits.all_isDigit_padded width n) c hc)
  have hmarks : ∀ c ∈ ['-', 'T', ':', '.', 'Z'], c.toNat ≤ 127 := by simp
  simp only [List.forall_mem_cons] at hmarks
  obtain ⟨hdash, htime, hcolon, hpoint, hzone, hnil⟩ := hmarks
  simp only [IsAscii, ofInstant, Instant.dateChars, Instant.clockChars, List.forall_mem_append,
    List.forall_mem_cons, and_assoc]
  exact ⟨hyear, hdash, hdigits _ _, hdash, hdigits _ _, htime, hdigits _ _, hcolon, hdigits _ _,
    hcolon, hdigits _ _, hpoint, hdigits _ _, hzone, hnil⟩

end Stamp
end AlertDesk
