import AlertDesk.Config
import AlertDesk.Proofs.StoredTimes
import AlertDesk.Proofs.Ages

/-!
What is known of a configuration that was accepted. Its numbers are those of the document, or the
defaults; they are positive and within their bounds; and the bounds are close enough for every age
that is made of them to be taken off every reading of the clock in the years that have four digits,
though it may lead back beyond these years.
-/
namespace AlertDesk.Config

variable {c : Config} {fields : Toml.Fields} {host : Option String} {suffix text : String}

/-! ### The numbers among the settings -/

inductive Setting where
  | singleDeadline | bulkDeadline
  | sessionDays | eventSeconds | cleanupSeconds
  | orphanSeconds | checkSeconds
deriving DecidableEq, Repr

namespace Setting

def table : Setting → String
  | .singleDeadline | .bulkDeadline => "timeouts"
  | .sessionDays | .eventSeconds | .cleanupSeconds => "retention"
  | .orphanSeconds | .checkSeconds => "orphans"

def name : Setting → String
  | .singleDeadline => "status_update_ms"
  | .bulkDeadline => "bulk_ms"
  | .sessionDays => "session_retention_days"
  | .eventSeconds => "event_ttl_seconds"
  | .cleanupSeconds => "cleanup_interval_seconds"
  | .orphanSeconds => "timeout_seconds"
  | .checkSeconds => "check_interval_seconds"

def place : Setting → Nat
  | .singleDeadline | .sessionDays | .orphanSeconds => 0
  | .bulkDeadline | .eventSeconds | .checkSeconds => 1
  | .cleanupSeconds => 2

/-- The most that it may be, in its own unit. A deadline may be as long as it likes. -/
def bound? : Setting → Option Nat
  | .singleDeadline | .bulkDeadline => none
  | .sessionDays => some maxDays
  | _ => some maxSeconds

def value : Setting → Config → Nat
  | .singleDeadline, c => c.deadlines.single
  | .bulkDeadline, c => c.deadlines.bulk
  | .sessionDays, c => c.sessionDays
  | .eventSeconds, c => c.eventSeconds
  | .cleanupSeconds, c => c.cleanupSeconds
  | .orphanSeconds, c => c.orphanSeconds
  | .checkSeconds, c => c.checkSeconds

def Sound (c : Config) (setting : Setting) : Prop :=
  0 < setting.value c ∧ ∀ bound ∈ setting.bound?, setting.value c ≤ bound

def IsFault (setting : Setting) (n : Int) : Prop := n ≤ 0 ∨ ∃ bound ∈ setting.bound?, bound < n

theorem Sound.not_isFault {setting : Setting} (h : setting.Sound c) :
    ¬ setting.IsFault (setting.value c) := by
  intro hfault
  obtain ⟨hpositive, hwithin⟩ := h
  rcases hfault with hzero | ⟨bound, hbound, hlong⟩
  · omega
  · have hle := hwithin bound hbound
    omega

end Setting

def Section.find? (s : Section) (name : String) (place : Nat) : Option Toml :=
  match s with
  | .named fields => fields.lookup name
  | .ordered items => items[place]?

def Setting.given? (fields : Toml.Fields) (setting : Setting) : Option Toml :=
  (section? fields setting.table).bind (·.find? setting.name setting.place)

/-! ### Reading -/

theorem eq_of_natural? {bound n : Nat} {v : Toml} (h : natural? bound v = some n) : v = .int n := by
  cases v with
  | int m =>
    simp only [natural?, Option.ite_none_right_eq_some, Option.some.injEq] at h
    obtain ⟨⟨hlow, _⟩, rfl⟩ := h
    rw [Int.toNat_of_nonneg hlow]
  | text | float | bool | time | array | table | tables => cases h

theorem Section.eq_of_get {s : Section} {name : String} {place default bound n : Nat} {v : Toml}
    (h : s.get name place default (natural? bound) = some n)
    (hgiven : s.find? name place = some v) :
    v = .int n := by
  refine eq_of_natural? (?_ : natural? bound v = some n)
  cases s with
  | named fields | ordered items =>
    simp only [Section.find?] at hgiven
    simpa only [Section.get, hgiven] using h

/-- Each number is read off its own section, and has a default. -/
theorem get_of_ofFields? (hread : ofFields? fields = some c) (setting : Setting) :
    ∃ s default bound, section? fields setting.table = some s ∧
      s.get setting.name setting.place default (natural? bound) = some (setting.value c) := by
  unfold ofFields? at hread
  obtain ⟨timeouts, htimeouts, hread⟩ := Option.bind_eq_some_iff.mp hread
  obtain ⟨retention, hretention, hread⟩ := Option.bind_eq_some_iff.mp hread
  obtain ⟨orphans, horphans, hread⟩ := Option.bind_eq_some_iff.mp hread
  obtain ⟨_, _, hread⟩ := Option.bind_eq_some_iff.mp hread
  obtain ⟨path, _, hread⟩ := Option.bind_eq_some_iff.mp hread
  obtain ⟨pod, _, hread⟩ := Option.bind_eq_some_iff.mp hread
  obtain ⟨single, hsingle, hread⟩ := Option.bind_eq_some_iff.mp hread
  obtain ⟨bulk, hbulk, hread⟩ := Option.bind_eq_some_iff.mp hread
  obtain ⟨days, hdays, hread⟩ := Option.bind_eq_some_iff.mp hread
  obtain ⟨ttl, httl, hread⟩ := Option.bind_eq_some_iff.mp hread
  obtain ⟨cleanup, hcleanup, hread⟩ := Option.bind_eq_some_iff.mp hread
  obtain ⟨silence, hsilence, hread⟩ := Option.bind_eq_some_iff.mp hread
  obtain ⟨interval, hinterval, hread⟩ := Option.bind_eq_some_iff.mp hread
  obtain ⟨action, _, hread⟩ := Option.bind_eq_some_iff.mp hread
  cases hread
  cases setting with
  | singleDeadline => exact ⟨timeouts, _, _, htimeouts, hsingle⟩
  | bulkDeadline => exact ⟨timeouts, _, _, htimeouts, hbulk⟩
  | sessionDays => exact ⟨retention, _, _, hretention, hdays⟩
  | eventSeconds => exact ⟨retention, _, _, hretention, httl⟩
  | cleanupSeconds => exact ⟨retention, _, _, hretention, hcleanup⟩
  | orphanSeconds => exact ⟨orphans, _, _, horphans, hsilence⟩
  | checkSeconds => exact ⟨orphans, _, _, horphans, hinterval⟩

/-- A configuration has for its settings the numbers that the document gives. -/
theorem eq_of_given? {v : Toml} {setting : Setting} (hread : ofFields? fields = some c)
    (hgiven : setting.given? fields = some v) : v = .int (setting.value c) := by
  obtain ⟨s, default, bound, hs, hget⟩ := get_of_ofFields? hread setting
  rw [Setting.given?, hs] at hgiven
  exact Section.eq_of_get hget hgiven

/-! ### Checking -/

/-- The check passes if no rule is broken, and else tells the fault of the first that is. -/
theorem check_cases (c : Config) :
    c.check = .ok () ∨ ∃ fault, c.check = .error (.config fault) := by
  unfold check
  cases c.rules.find? fun rule => !rule.1 with
  | none => exact .inl rfl
  | some rule => exact .inr ⟨rule.2, rfl⟩

theorem check_eq_ok_iff_rules : c.check = .ok () ↔ ∀ rule ∈ c.rules, rule.1 = true := by
  have hrules : c.check = .ok () ↔ (c.rules.find? fun rule => !rule.1) = none := by
    unfold check
    cases c.rules.find? fun rule => !rule.1 with
    | none => exact iff_of_true rfl rfl
    | some rule => exact iff_of_false nofun nofun
  rw [hrules, List.find?_eq_none]
  simp only [Bool.not_eq_true', Bool.not_eq_false]

/-- The check asks for a path, for a name that is not blank if there is one, and for sound numbers;
and for nothing else. -/
theorem check_eq_ok_iff : c.check = .ok () ↔ c.databasePath ≠ "" ∧
    (∀ pod ∈ c.podId, Text.isBlank pod = false) ∧ ∀ setting : Setting, setting.Sound c := by
  rw [check_eq_ok_iff_rules]
  simp only [rules, List.forall_mem_cons, Bool.and_eq_true, decide_eq_true_eq]
  constructor
  · intro h
    obtain ⟨hpath, hpod, ⟨hsingle, hbulk⟩, hdays, ⟨httl, hcleanup⟩, ⟨hsilence, hinterval⟩, hdays',
      httl', hcleanup', hsilence', hinterval', _⟩ := h
    have hwithin {n bound : Nat} (h : n ≤ bound) : ∀ b ∈ some bound, n ≤ b := by
      rintro _ ⟨⟩
      exact h
    refine ⟨by simpa using hpath, (Option.any_eq_false _ _).mp (by simpa using hpod),
      fun setting => ?_⟩
    cases setting with
    | singleDeadline => exact ⟨hsingle, nofun⟩
    | bulkDeadline => exact ⟨hbulk, nofun⟩
    | sessionDays => exact ⟨hdays, hwithin hdays'⟩
    | eventSeconds => exact ⟨httl, hwithin httl'⟩
    | cleanupSeconds => exact ⟨hcleanup, hwithin hcleanup'⟩
    | orphanSeconds => exact ⟨hsilence, hwithin hsilence'⟩
    | checkSeconds => exact ⟨hinterval, hwithin hinterval'⟩
  · intro h
    obtain ⟨hpath, hpod, hsound⟩ := h
    have hwithin (setting : Setting) {bound : Nat} (h : setting.bound? = some bound) :
        setting.value c ≤ bound := (hsound setting).2 bound h
    have hnamed : c.podId.any Text.isBlank = false := (Option.any_eq_false _ _).mpr hpod
    exact ⟨by simpa using hpath, by simpa using hnamed,
      ⟨(hsound .singleDeadline).1, (hsound .bulkDeadline).1⟩, (hsound .sessionDays).1,
      ⟨(hsound .eventSeconds).1, (hsound .cleanupSeconds).1⟩,
      ⟨(hsound .orphanSeconds).1, (hsound .checkSeconds).1⟩,
      hwithin .sessionDays rfl, hwithin .eventSeconds rfl, hwithin .cleanupSeconds rfl,
      hwithin .orphanSeconds rfl, hwithin .checkSeconds rfl, nofun⟩

/-! ### Accepted and rejected texts -/

/-- A text is read and checked, or whatever it is rejected for is a fault of the configuration. -/
theorem ofText_cases (host : Option String) (suffix text : String) :
    (∃ fields read, Toml.read? text = some fields ∧ ofFields? fields = some read ∧
      read.check = .ok () ∧
      ofText host suffix text =
        .ok { read with podId := some (read.podId.getD (defaultPodId host suffix)) }) ∨
    ∃ fault, ofText host suffix text = .error (.config fault) := by
  unfold ofText
  cases hread : (Toml.read? text).bind ofFields? with
  | none => exact .inr ⟨.malformed, rfl⟩
  | some read =>
    obtain ⟨fields, hfields, hof⟩ := Option.bind_eq_some_iff.mp hread
    rcases check_cases read with hcheck | ⟨fault, hcheck⟩
    · refine .inl ⟨fields, read, hfields, hof, hcheck, ?_⟩
      simp only [hcheck]
      rfl
    · refine .inr ⟨fault, ?_⟩
      simp only [hcheck]
      rfl

theorem of_ofText (h : ofText host suffix text = .ok c) : ∃ read : Config, read.check = .ok () ∧
    c = { read with podId := some (read.podId.getD (defaultPodId host suffix)) } := by
  rcases ofText_cases host suffix text with ⟨_, read, _, _, hcheck, hok⟩ | ⟨fault, herror⟩
  · exact ⟨read, hcheck, Except.ok.inj (h.symm.trans hok)⟩
  · rw [herror] at h
    cases h

/-- The name that a pod is given has a hyphen. -/
theorem isBlank_defaultPodId (host : Option String) (suffix : String) :
    Text.isBlank (defaultPodId host suffix) = false := by
  have hhyphen : "-".toList.all Text.isWhite = false := by decide
  rw [defaultPodId, Text.isBlank, String.toList_append, String.toList_append, List.all_append,
    List.all_append, hhyphen, Bool.and_false, Bool.false_and]

theorem sound_of_ofText (h : ofText host suffix text = .ok c) (setting : Setting) :
    setting.Sound c := by
  obtain ⟨read, hcheck, rfl⟩ := of_ofText h
  have hsound := (check_eq_ok_iff.mp hcheck).2.2 setting
  cases setting <;> exact hsound

theorem podId_of_ofText (h : ofText host suffix text = .ok c) :
    ∃ pod, c.podId = some pod ∧ Text.isBlank pod = false := by
  obtain ⟨read, hcheck, rfl⟩ := of_ofText h
  refine ⟨_, rfl, ?_⟩
  cases hpod : read.podId with
  | none => exact isBlank_defaultPodId host suffix
  | some pod => exact (check_eq_ok_iff.mp hcheck).2.1 pod hpod

/-- A text in which a number is a fault is rejected. -/
theorem ofText_of_isFault {setting : Setting} {n : Int} (hfields : Toml.read? text = some fields)
    (hgiven : setting.given? fields = some (.int n)) (hn : setting.IsFault n) :
    ∃ fault, ofText host suffix text = .error (.config fault) := by
  rcases ofText_cases host suffix text with ⟨fields', read, hfields', hread, hcheck, _⟩ | hrejected
  · obtain rfl : fields = fields' := Option.some.inj (hfields.symm.trans hfields')
    obtain rfl : n = setting.value read := Toml.int.inj (eq_of_given? hread hgiven)
    exact absurd hn ((check_eq_ok_iff.mp hcheck).2.2 setting).not_isFault
  · exact hrejected

/-! ### Ages -/

def ages (c : Config) : List Nat :=
  [c.retention.sessionDays * Retention.nanosPerDay, c.retention.eventAge, c.orphanAge]

/-- A hundred years can be taken off every time in the years that have four digits. -/
theorem not_outOfReach {now : Instant} {age : Nat} (hnow : now.Storable)
    (hage : age ≤ maxSeconds * nanosPerSecond) : ¬ now.OutOfReach age := by
  have hbounds := hnow.bounds
  unfold maxSeconds nanosPerSecond at hage
  refine not_or.mpr ⟨?_, ?_⟩
  · have hmax : Instant.maxAge = 9223372036854775807000000 := by decide
    omega
  · change ¬ now.nanos + -(age : Int) < Instant.earliest.nanos
    rw [Instant.earliest_nanos]
    omega

theorem ages_le (h : ∀ setting : Setting, setting.Sound c) :
    ∀ age ∈ c.ages, age ≤ maxSeconds * nanosPerSecond := by
  have hdays : c.sessionDays ≤ maxDays := (h .sessionDays).2 maxDays rfl
  have httl : c.eventSeconds ≤ maxSeconds := (h .eventSeconds).2 maxSeconds rfl
  have hsilence : c.orphanSeconds ≤ maxSeconds := (h .orphanSeconds).2 maxSeconds rfl
  simp only [ages, retention, orphanAge, List.forall_mem_cons]
  refine ⟨?_, Nat.mul_le_mul_right _ httl, Nat.mul_le_mul_right _ hsilence, nofun⟩
  -- A hundred years of days are as long as the longest period.
  calc c.sessionDays * Retention.nanosPerDay
    _ ≤ maxDays * Retention.nanosPerDay := Nat.mul_le_mul_right _ hdays
    _ = maxSeconds * nanosPerSecond := rfl

end AlertDesk.Config
