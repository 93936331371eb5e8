import AlertDesk.Proofs.Chronology

/-!
Signs of life in the order in which they take effect. A worker reads the clock before its sign is
written, so a sign that another one has overtaken writes an earlier time over a later one. While a
session is in a worker's hands it shows the sign that was written last; it shows the latest one, and
a scan for orphans passes over every session with a sign that is recent enough, exactly where no
sign has been overtaken.
-/
namespace AlertDesk

namespace Stamp

variable {a b c : Stamp}

theorem not_lt_trans (hab : ¬ b < a) (hbc : ¬ c < b) : ¬ c < a := by
  change ¬ c.chars < a.chars
  exact not_lt.mpr (le_trans (not_lt.mp hab) (not_lt.mp hbc))

theorem lt_of_not_lt_of_lt (hab : ¬ b < a) (hbc : b < c) : a < c :=
  lt_of_le_of_lt (α := List Char) (not_lt.mp hab) hbc

end Stamp

def Statement.signs (before : List Stamp) : Statement → List Stamp
  | .claimSession _ _ now => [now]
  | .touchSession _ now | .advanceSession _ _ _ now => before ++ [now]
  | _ => before

namespace Pool

def Entry.signs (id : String) (before : List Stamp) (e : Entry Store) : List Stamp :=
  if e.before.sessions.any (fun r => r.id == id && e.statement.finds r) then
    e.statement.signs before
  else before

/-- The signs of life on a session since its last claim, in the order in which they took effect. -/
def tenure (id : String) (log : List (Entry Store)) : List Stamp := log.foldl (Entry.signs id) []

theorem tenure_concat (id : String) (log : List (Entry Store)) (e : Entry Store) :
    tenure id (log ++ [e]) = e.signs id (tenure id log) := by
  rw [tenure, List.foldl_append]
  rfl

def SignsInOrder (id : String) (log : List (Entry Store)) : Prop :=
  ∀ first, first <+: log → (tenure id first).Pairwise fun earlier later => ¬ later < earlier

/-- No statement moves the last sign of life back on a session that stays in a worker's hands. -/
def NeverBack (id : String) (log : List (Entry Store)) : Prop :=
  ∀ first e rest, log = first ++ e :: rest → ∀ r r', e.before.session? id = some r →
    (Store.engine e.statement e.before).2.session? id = some r' → r.isLive = true →
    r'.isLive = true →
    ∀ last ∈ r.lastInteractionAt, ∀ last' ∈ r'.lastInteractionAt, ¬ last' < last

/-- No scan finds the session stale if a sign of life has taken effect that is not before its
cutoff. -/
def NoneMissed (id : String) (log : List (Entry Store)) : Prop :=
  ∀ first e rest cutoff, log = first ++ e :: rest → e.statement = .findStale cutoff →
    ∀ rows : List SessionRow, (Store.engine (.findStale cutoff) e.before).1 = .ok rows →
    ∀ r ∈ rows, r.id = id → ∀ sign ∈ tenure id first, sign < cutoff

variable {id : String} {log : List (Entry Store)} {st : Store} {e : Entry Store} {r : SessionRow}

theorem Entry.signs_eq (hst : e.before.Keyed) (hr : e.before.session? id = some r)
    (before : List Stamp) :
    e.signs id before = if e.statement.finds r then e.statement.signs before else before := by
  rw [signs, Store.any_session hst hr]

/-- What is known at any point of a run about the session while it is in a worker's hands: the sign
of life that it shows is the last one since it was claimed. -/
structure Attended (id : String) (log : List (Entry Store)) (st : Store) : Prop where
  keyed : st.Keyed
  kept : st.KeepsSessions
  last : ∀ r, st.session? id = some r → r.isLive = true →
    r.lastInteractionAt = (tenure id log).getLast?

theorem Attended.engine {request : Request} {clock : Instant → Prop} {s : Statement}
    (h : Attended id log st) (hs : s.AskedBy clock request) (i : Nat) :
    Attended id (log ++ [⟨i, s, st⟩]) (Store.engine s st).2 where
  keyed := Statement.keyed_engine h.keyed s
  kept := h.kept.engine hs
  last := fun r hr hlive => by
    rw [tenure_concat]
    cases hbefore : st.session? id with
    | none =>
      rw [Store.session?_engine_of_none hbefore hr] at hs
      obtain ⟨submission, freshId, now, _, _, _, rfl⟩ := hs
      cases hlive
    | some r₀ =>
      rw [Entry.signs_eq h.keyed hbefore]
      rw [Store.session?_engine_of_some s hbefore, Option.some.injEq] at hr
      subst hr
      cases hfinds : s.finds r₀ with
      | false =>
        rw [Statement.onSession_of_not_finds hfinds] at hlive ⊢
        simpa using h.last r₀ hbefore hlive
      | true =>
        have hwrites := Statement.writesSession_of_finds hfinds
        generalize s.onSession r₀ = after at hlive hwrites
        rw [if_pos rfl]
        cases hwrites with
        | claim => rfl
        | touch => exact List.getLast?_concat.symm
        | advance => exact List.getLast?_concat.symm
        | finish id outcome now hr =>
          have hended : outcome.status.isLive = true := hlive
          have hterminal := hs.2.1
          rw [SessionStatus.isTerminal_of_isLive hended] at hterminal
          cases hterminal
        | cancel id hr => exact h.last r₀ hbefore (SessionRow.isLive_of_isInProgress hr)
        | abandon => cases hlive
        | requeue => cases hlive
        | delete cutoff now hr => exact h.last r₀ hbefore hlive

/-- A statement adds no sign of life, or it claims the session, or it adds one to a session that
stays in a worker's hands and then shows it. -/
theorem Entry.signs_cases (hst : e.before.Keyed) (hr : e.before.session? id = some r)
    (before : List Stamp) :
    e.signs id before = before ∨ (r.isClaimable = true ∧ ∃ now, e.signs id before = [now]) ∨
      ∃ now, e.signs id before = before ++ [now] ∧ r.isLive = true ∧
        (e.statement.onSession r).isLive = true ∧
        (e.statement.onSession r).lastInteractionAt = some now := by
  rw [signs_eq hst hr]
  cases hfinds : e.statement.finds r with
  | false => exact .inl rfl
  | true =>
    have hwrites := Statement.writesSession_of_finds hfinds
    generalize e.statement.onSession r = after at hwrites
    generalize e.statement = s at hwrites
    rw [if_pos rfl]
    cases hwrites with
    | claim id worker now hr => exact .inr (.inl ⟨hr, now, rfl⟩)
    | touch id now hr => exact .inr (.inr ⟨now, rfl, hr, hr, rfl⟩)
    | advance id stageIndex stageId now hr =>
      have hlive := SessionRow.isLive_of_isInProgress hr
      exact .inr (.inr ⟨now, rfl, hlive, hlive, rfl⟩)
    | finish | cancel | abandon | requeue | delete => exact .inl rfl

theorem Entry.signs_of_none (h : e.before.session? id = none) (before : List Stamp) :
    e.signs id before = before := by
  rw [signs, Store.any_session_of_none h]
  rfl

/-- The last of signs that are in order is no earlier than any of them. -/
theorem not_last_lt {signs : List Stamp} {last : Stamp}
    (h : signs.Pairwise fun earlier later => ¬ later < earlier)
    (hlast : signs.getLast? = some last) :
    ∀ sign ∈ signs, ¬ last < sign := by
  obtain ⟨before, rfl⟩ := List.getLast?_eq_some_iff.mp hlast
  intro sign hsign
  rcases List.mem_append.mp hsign with hbefore | hself
  · exact (List.pairwise_append.mp h).2.2 sign hbefore last (List.mem_singleton_self last)
  · rw [List.mem_singleton.mp hself]
    exact lt_irrefl last.chars

section
variable {requests : List Request} {schedule : List (Nat × Instant)}
  {first rest : List (Entry Store)}

theorem attended_before (id : String)
    (hlog : Pool.log Store.engine schedule (Request.pool requests) {} = first ++ e :: rest) :
    Attended id first e.before ∧
      Attended id (first ++ [e]) (Store.engine e.statement e.before).2 := by
  have hbefore := run_keeps_before schedule (Request.pool requests) ({} : Store)
    (fun _ _ => trivial) (Request.pool_asks requests fun _ _ => True) (I := Attended id)
    ⟨balanced_empty.keyed, by simp [Store.KeepsSessions], by simp [Store.session?]⟩
    (fun log i s st hasked h => by
      obtain ⟨_, _, hs⟩ := hasked
      exact h.engine hs i) hlog
  obtain ⟨hattended, _, _, hs⟩ := hbefore
  exact ⟨hattended, hattended.engine hs e.caller⟩

/-- Where the last sign is never moved back, no sign is earlier than one before it. -/
theorem signsInOrder_of_neverBack
    (h : NeverBack id (Pool.log Store.engine schedule (Request.pool requests) {})) :
    SignsInOrder id (Pool.log Store.engine schedule (Request.pool requests) {}) := by
  intro first
  induction first using List.reverseRecOn with
  | nil => exact fun _ => .nil
  | append_singleton first e ih =>
    intro hstart
    obtain ⟨rest, hlog⟩ := hstart
    rw [List.append_assoc] at hlog
    have hsorted := ih ⟨[e] ++ rest, hlog⟩
    have hattended := (attended_before id hlog.symm).1
    rw [tenure_concat]
    cases hr : e.before.session? id with
    | none => rwa [Entry.signs_of_none hr]
    | some r =>
      rcases Entry.signs_cases hattended.keyed hr (tenure id first) with
        hsame | ⟨_, now, hclaimed⟩ | ⟨now, hsigned, hlive, hlive', hnow⟩
      · rwa [hsame]
      · rw [hclaimed]
        exact List.pairwise_singleton _ now
      · rw [hsigned]
        refine List.pairwise_append.mpr
          ⟨hsorted, List.pairwise_singleton _ now, fun sign hsign => ?_⟩
        intro _ hmem
        rw [List.mem_singleton.mp hmem]
        -- The sign that the session showed is no earlier than those before it.
        have hshown := hattended.last r hr hlive
        have hlast := List.getLast?_eq_some_getLast (List.ne_nil_of_mem hsign)
        rw [hlast] at hshown
        have hforward := h first e rest hlog.symm r _ hr
          (Store.session?_engine_of_some e.statement hr) hlive hlive' _ hshown now hnow
        exact Stamp.not_lt_trans (not_last_lt hsorted hlast sign hsign) hforward

theorem neverBack_of_signsInOrder
    (h : SignsInOrder id (Pool.log Store.engine schedule (Request.pool requests) {})) :
    NeverBack id (Pool.log Store.engine schedule (Request.pool requests) {}) := by
  intro first e rest hlog r r' hr hr' hlive hlive' last hlast last' hlast'
  obtain ⟨hbefore, hafter⟩ := attended_before id hlog
  have hsorted := h (first ++ [e]) ⟨rest, by rw [hlog, List.append_assoc]; rfl⟩
  have hshown := hbefore.last r hr hlive
  have hshown' := hafter.last r' hr' hlive'
  rw [Option.mem_def.mp hlast] at hshown
  rw [Option.mem_def.mp hlast', tenure_concat] at hshown'
  rw [tenure_concat] at hsorted
  rcases Entry.signs_cases hbefore.keyed hr (tenure id first) with
    hsame | ⟨hclaimable, _⟩ | ⟨now, hsigned, _⟩
  · rw [hsame, ← hshown, Option.some.injEq] at hshown'
    rw [hshown']
    exact lt_irrefl last.chars
  · rw [SessionRow.isLive, SessionRow.status_of_isClaimable hclaimable] at hlive
    cases hlive
  · have hmem : last ∈ tenure id first := List.mem_of_getLast? hshown.symm
    exact not_last_lt hsorted hshown'.symm last (by rw [hsigned]; exact List.mem_append_left _ hmem)

/-- Where signs are in order, the one that a stale session shows is the latest. -/
theorem noneMissed_of_signsInOrder
    (h : SignsInOrder id (Pool.log Store.engine schedule (Request.pool requests) {})) :
    NoneMissed id (Pool.log Store.engine schedule (Request.pool requests) {}) := by
  intro first e rest cutoff hlog hfind rows hrows r hr hid sign hsign
  obtain ⟨hattended, _⟩ := attended_before id hlog
  have hsorted := h first ⟨e :: rest, hlog.symm⟩
  have hstale : r ∈ e.before.sessions ∧ r.isStale cutoff = true := by
    simp only [Store.engine, Statement.exec, Except.ok.injEq] at hrows
    rwa [← hrows, List.mem_mergeSort, List.mem_filter] at hr
  obtain ⟨hmem, hstale⟩ := hstale
  simp only [SessionRow.isStale, Bool.and_eq_true, decide_eq_true_eq] at hstale
  have hfound : e.before.session? id = some r := by
    rw [← hid]
    exact Store.session?_of_mem hattended.keyed hmem
  have hshown := hattended.last r hfound (SessionRow.isLive_of_isInProgress hstale.1.1)
  have hlast := List.getLast?_eq_some_getLast (List.ne_nil_of_mem hsign)
  rw [hlast] at hshown
  have hsilent := hstale.2
  rw [SessionRow.lastSign, hshown] at hsilent
  exact Stamp.lt_of_not_lt_of_lt (not_last_lt hsorted hlast sign hsign) hsilent

/-! ### Signs and readings of the clock -/

theorem exists_readings {clock : Instant → Prop} {stamps : List Stamp}
    (h : ∀ s ∈ stamps, s.Taken clock) :
    ∃ readings : List Instant, stamps = readings.map Stamp.ofInstant ∧ ∀ t ∈ readings, clock t := by
  induction stamps with
  | nil => exact ⟨[], rfl, by simp⟩
  | cons s stamps ih =>
    obtain ⟨⟨t, ht, rfl⟩, hrest⟩ := List.forall_mem_cons.mp h
    obtain ⟨readings, rfl, hreadings⟩ := ih hrest
    exact ⟨t :: readings, rfl, List.forall_mem_cons.mpr ⟨ht, hreadings⟩⟩

/-- Signs of life are among the times that are written. -/
theorem tenure_sublist (id : String) (log : List (Entry Store)) :
    (tenure id log).Sublist (log.filterMap (·.statement.writes?)) := by
  induction log using List.reverseRecOn with
  | nil => exact .slnil
  | append_singleton log e ih =>
    rw [tenure_concat, List.filterMap_append, Entry.signs]
    have hkept : (tenure id log).Sublist
        (log.filterMap (·.statement.writes?) ++ [e].filterMap (·.statement.writes?)) :=
      ih.trans (List.sublist_append_left _ _)
    split
    · obtain ⟨_, s, _⟩ := e
      cases s with
      | claimSession => exact List.sublist_append_right _ _
      | touchSession => exact ih.append (.refl _)
      | advanceSession => exact ih.append (.refl _)
      | _ => exact hkept
    · exact hkept

/-- Signs of life are the stored forms of readings of the clock by their calls. -/
theorem tenure_taken (id : String)
    (hstart : first <+: Pool.log Store.engine schedule (Request.pool requests) {}) :
    ∀ sign ∈ tenure id first, sign.Taken fun t => ∃ x ∈ schedule, x.2 = t := by
  intro sign hsign
  obtain ⟨e, he, hwrites⟩ := List.mem_filterMap.mp ((tenure_sublist id first).subset hsign)
  obtain ⟨request, _, hasked⟩ := askedBy_of_mem_pool_log (hstart.subset he)
  obtain ⟨t, ht, rfl⟩ := Statement.taken_of_writes? hasked hwrites
  exact ⟨t, ⟨_, ht, rfl⟩, rfl⟩

/-- In the years that have four digits, signs are in order as their readings are. -/
theorem pairwise_ofInstant_iff {readings : List Instant} (h : ∀ t ∈ readings, t.Storable) :
    ((readings.map Stamp.ofInstant).Pairwise fun earlier later => ¬ later < earlier) ↔
      readings.Pairwise (·.cut ≤ ·.cut) := by
  rw [List.pairwise_map]
  refine List.Pairwise.iff_of_mem fun {a b} ha hb => ?_
  rw [Stamp.ofInstant_lt_iff (h b hb) (h a ha)]
  exact Int.not_lt

/-- Calls that are made one after the other under a clock that does not go back leave signs in
order. -/
theorem signsInOrder_of_oneByOne (id : String) (horder : OneByOne schedule)
    (hclock : schedule.Pairwise (·.2 ≤ ·.2)) (hyears : ∀ x ∈ schedule, x.2.Storable) :
    SignsInOrder id (Pool.log Store.engine schedule (Request.pool requests) {}) := by
  intro first hstart
  obtain ⟨times, hwritten, hsorted, hread⟩ := written_in_order requests horder hclock
  have hstorable : ∀ t ∈ times, t.Storable := fun t ht => by
    obtain ⟨x, hx, rfl⟩ := hread t ht
    exact hyears x hx
  have htimes : times.Pairwise (·.cut ≤ ·.cut) := hsorted.imp fun {a b} hle => by
    change a.nanos ≤ b.nanos at hle
    change a.nanos / 1000 * 1000 ≤ b.nanos / 1000 * 1000
    omega
  have hall := (pairwise_ofInstant_iff hstorable).mpr htimes
  rw [← hwritten] at hall
  exact hall.sublist ((tenure_sublist id first).trans (hstart.sublist.filterMap _))

end
end Pool

namespace Orphans

open Service

/-- What is found are the rows that are stale at the cutoff, as records. -/
theorem ends_find {clock : Instant → Prop} {es : List (Pool.Entry Store)} {timeout : Nat}
    {sessions : List Session}
    (h : (Request.findOrphans timeout).replying.Ends clock es (.ok (.orphans sessions))) :
    ∃ now before look rows, clock now ∧ now.before? timeout = some before ∧ es = [look] ∧
      look.statement = .findStale (.ofInstant before) ∧
      (Store.engine (.findStale (.ofInstant before)) look.before).1 = .ok rows ∧
      rows.mapM SessionRow.read = .ok sessions := by
  simp only [Request.replying, find, Rows.stale, Rows.readAll, bind_assoc] at h
  obtain ⟨now, hnow, h⟩ := ends_clock_bind.mp h
  obtain ⟨before, hcutoff, h⟩ := ends_settle_bind_ok h
  obtain ⟨i, st, rest, rfl, hasked⟩ := ends_ask_bind.mp h
  obtain ⟨rows, hanswer, hanswered⟩ := ends_settle_bind_ok hasked
  obtain ⟨found, hread, htold⟩ := ends_settle_bind_ok hanswered
  obtain ⟨rfl, hfound⟩ := ends_pure.mp htold
  cases hfound
  exact ⟨now, before, _, rows, hnow, Retention.cutoff_eq_ok hcutoff, rfl, rfl, hanswer, hread⟩

end Orphans

namespace Pool

/-- However calls overlap, the last sign of life of a session that stays in a worker's hands is
never moved back, and no scan finds a session stale to which a recent enough sign has been given
since it was claimed, exactly if no sign took effect after one that is later. The signs are the
stored forms of readings by their calls, and in the years that have four digits they are in order as
these are. A search for orphans answers what such a scan found that was asked with the timeout taken
off its own reading. Calls that are made one after the other under a clock that does not go back
leave their signs in order. -/
theorem signs_stand_iff (requests : List Request) (schedule : List (Nat × Instant)) (id : String) :
    let log := log Store.engine schedule (Request.pool requests) {}
    (NeverBack id log ∧ NoneMissed id log ↔ SignsInOrder id log) ∧
    (∀ first, first <+: log → ∃ readings : List Instant,
      tenure id first = readings.map Stamp.ofInstant ∧ (∀ t ∈ readings, ∃ x ∈ schedule, x.2 = t) ∧
      ((∀ x ∈ schedule, x.2.Storable) →
        (((tenure id first).Pairwise fun earlier later => ¬ later < earlier) ↔
          readings.Pairwise (·.cut ≤ ·.cut)))) ∧
    (∀ i timeout sessions, requests[i]? = some (.findOrphans timeout) →
      reply? i (run Store.engine schedule (Request.replies requests) {}).1 =
        some (.ok (.orphans sessions)) →
      ∃ look ∈ log, ∃ now before rows, look.caller = i ∧ (i, now) ∈ schedule ∧
        now.before? timeout = some before ∧ look.statement = .findStale (.ofInstant before) ∧
        (Store.engine (.findStale (.ofInstant before)) look.before).1 = .ok rows ∧
        rows.mapM SessionRow.read = .ok sessions) ∧
    (OneByOne schedule → schedule.Pairwise (·.2 ≤ ·.2) → (∀ x ∈ schedule, x.2.Storable) →
      SignsInOrder id log) := by
  intro log
  refine ⟨⟨fun h => signsInOrder_of_neverBack h.1,
    fun h => ⟨neverBack_of_signsInOrder h, noneMissed_of_signsInOrder h⟩⟩, fun first hstart => ?_,
    fun i timeout sessions hrequest hreply => ?_, signsInOrder_of_oneByOne id⟩
  · obtain ⟨readings, hsigns, hreadings⟩ := exists_readings (tenure_taken id hstart)
    refine ⟨readings, hsigns, hreadings, fun hyears => ?_⟩
    rw [hsigns]
    refine pairwise_ofInstant_iff fun t ht => ?_
    obtain ⟨x, hx, rfl⟩ := hreadings t ht
    exact hyears x hx
  · obtain ⟨now, before, look, rows, hnow, hage, hown, hstatement, hanswer, hread⟩ :=
      Orphans.ends_find (ends_of_reply? hrequest hreply)
    have hlook : look ∈ own i (Pool.log Store.engine schedule (Request.replies requests) {}) := by
      rw [hown]
      exact List.mem_singleton_self look
    obtain ⟨hmem, hcaller⟩ := List.mem_filter.mp hlook
    rw [← log_replies] at hmem
    exact ⟨look, hmem, now, before, rows, beq_iff_eq.mp hcaller, hnow, hage, hstatement, hanswer,
      hread⟩

end Pool

/-! A worker claims a session and gives two signs of life, and orphans are looked for at once: the
signs take effect in turn, or the first is overtaken by the second. -/

namespace Beating

open Reopening (steps)

def seconds (n : Int) : Instant := ⟨n * 1000000000⟩

def requests : List Request := [
  .submit OneSession.submission "",
  .claim "a",
  .heartbeat "s",
  .heartbeat "s",
  .findOrphans 300000000000]

def claimed : List (Nat × Instant) := steps 0 2 (seconds 0) ++ steps 1 4 (seconds 0)

def orderly : List (Nat × Instant) :=
  claimed ++ steps 2 2 (seconds 1) ++ steps 3 2 (seconds 600) ++ steps 4 2 (seconds 601)

def overtaken : List (Nat × Instant) :=
  claimed ++ steps 2 1 (seconds 1) ++ steps 3 2 (seconds 600) ++ steps 2 1 (seconds 600) ++
    steps 4 2 (seconds 601)

def entries (schedule : List (Nat × Instant)) : List (Pool.Entry Store) :=
  Pool.log Store.orderedEngine schedule (Request.pool requests) {}

def found (schedule : List (Nat × Instant)) : List String :=
  match Pool.reply? 4 (Pool.run Store.orderedEngine schedule (Request.replies requests) {}).1 with
  | some (.ok (.orphans sessions)) => sessions.map (·.id)
  | _ => []

theorem log_eq (schedule : List (Nat × Instant)) :
    Pool.log Store.engine schedule (Request.pool requests) {} = entries schedule := by
  rw [Store.engine_eq_ordered]
  rfl

end Beating

namespace Pool

open Beating

theorem signs_stand_orderly : OneByOne orderly ∧ orderly.Pairwise (·.2 ≤ ·.2) ∧
    tenure "s" (entries orderly) =
      [.ofInstant (seconds 0), .ofInstant (seconds 1), .ofInstant (seconds 600)] ∧
    found orderly = [] ∧ NeverBack "s" (entries orderly) ∧ NoneMissed "s" (entries orderly) := by
  have horder : OneByOne orderly := by
    unfold OneByOne
    decide +kernel
  have hclock : orderly.Pairwise (·.2 ≤ ·.2) := by decide +kernel
  obtain ⟨hstand, _, _, hserial⟩ := signs_stand_iff requests orderly "s"
  rw [log_eq] at hstand hserial
  have hsigns := hserial horder hclock (by decide +kernel)
  obtain ⟨hback, hmissed⟩ := hstand.mpr hsigns
  exact ⟨horder, hclock, by decide +kernel, by decide +kernel, hback, hmissed⟩

/-- The clock does not go back, and the last sign of life does: the session is found silent for five
minutes one second after a sign of life was given. -/
theorem overtaken_sign_lost : overtaken.Pairwise (·.2 ≤ ·.2) ∧ found overtaken = ["s"] ∧
    ¬ NeverBack "s" (log Store.engine overtaken (Request.pool requests) {}) ∧
    ¬ NoneMissed "s" (log Store.engine overtaken (Request.pool requests) {}) := by
  rw [log_eq]
  refine ⟨by decide +kernel, by decide +kernel, fun hback => ?_, fun hmissed => ?_⟩
  · rw [← log_eq] at hback
    have hsigns := signsInOrder_of_neverBack hback _ (List.prefix_refl _)
    rw [log_eq] at hsigns
    exact absurd hsigns (by decide +kernel)
  · have hlast : ((entries overtaken).getLast?.any fun e =>
        e.statement == .findStale (.ofInstant (seconds 301)) &&
          e.before.sessions.any fun r =>
            r.id == "s" && r.isStale (.ofInstant (seconds 301))) = true := by decide +kernel
    obtain ⟨e, he, hlook⟩ := (Option.any_eq_true ..).mp hlast
    obtain ⟨first, hfirst⟩ := List.getLast?_eq_some_iff.mp he
    rw [Bool.and_eq_true, beq_iff_eq, List.any_eq_true] at hlook
    obtain ⟨hstatement, r, hr, hstale⟩ := hlook
    rw [Bool.and_eq_true, beq_iff_eq] at hstale
    have hsigns : tenure "s" (entries overtaken).dropLast =
        [.ofInstant (seconds 0), .ofInstant (seconds 600), .ofInstant (seconds 1)] := by
      decide +kernel
    rw [hfirst, List.dropLast_concat] at hsigns
    have hold := hmissed first e [] _ hfirst hstatement _ rfl r
      (List.mem_mergeSort.mpr (List.mem_filter.mpr ⟨hr, hstale.2⟩)) hstale.1
      (.ofInstant (seconds 600)) (by simp [hsigns])
    exact absurd hold (by decide +kernel)

end Pool
end AlertDesk
