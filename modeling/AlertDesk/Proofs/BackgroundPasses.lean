import AlertDesk.Proofs.Settings
import AlertDesk.Proofs.OrphanScans
import AlertDesk.Proofs.Replies

/-!
The passes of the background tasks. Whether a pass fails is settled by the rows and the times that
it meets, and these are good however calls overlap, so that it is enough to follow a pass through
stores of which nothing else is known. What is left are the ages, and for these an accepted
configuration answers.
-/
namespace AlertDesk

/-! ### Calls among others -/

namespace Call

variable {α β σ : Type} {engine : Engine σ} {clock : Instant → Prop} {met : σ → Prop}

/-- Whatever state of this kind each of its statements meets, and whatever the clock is allowed to
show, the call comes to an answer, and it is as it should be. -/
def YieldsAmid (engine : Engine σ) (clock : Instant → Prop) (met : σ → Prop) (should : α → Prop) :
    Call α → Prop
  | .done a => should a
  | .ask s next => ∀ st, met st → YieldsAmid engine clock met should (next (engine s st).1)
  | .clock next => ∀ now, clock now → YieldsAmid engine clock met should (next now)
  | .again => False

theorem YieldsAmid.bind {c : Call α} {f : α → Call β} {first : α → Prop} {should : β → Prop}
    (hc : c.YieldsAmid engine clock met first)
    (hf : ∀ a, first a → (f a).YieldsAmid engine clock met should) :
    (c.bind f).YieldsAmid engine clock met should := by
  induction c with
  | done a => exact hf a hc
  | ask s next ih => exact fun st hst => ih _ (hc st hst)
  | clock next ih => exact fun now hnow => ih now (hc now hnow)
  | again => exact hc.elim

section
variable {c whole rest : Call α} {should : α → Prop} {es : List (Pool.Entry σ)}
  {clock' : Instant → Prop}

/-- The rest of a call that is under way yields what the call does. -/
theorem YieldsAmid.of_course (h : c.YieldsAmid engine clock met should)
    (hcourse : Course engine clock' whole c es rest) (hclock : ∀ now, clock' now → clock now)
    (hmet : ∀ e ∈ es, met e.before) : rest.YieldsAmid engine clock met should := by
  induction hcourse with
  | stop => exact h
  | ask _ ih =>
    obtain ⟨hfirst, hlater⟩ := List.forall_mem_cons.mp hmet
    exact ih (h _ hfirst) hlater
  | clock hnow _ ih => exact ih (h _ (hclock _ hnow)) hmet
  | again => exact h.elim

/-- It yields so if it is made alone, where its own statements keep the state of this kind. -/
theorem YieldsAmid.alone {P : Statement → Prop} (h : c.YieldsAmid engine clock met should)
    (hasks : c.Asks clock P) (step : ∀ s st, P s → met st → met (engine s st).2)
    (readings : Nat → Instant) (hreadings : ∀ n, clock (readings n)) {st : σ} (hst : met st) :
    ∃ a after, c.alone engine readings st = (some a, after) ∧ should a := by
  induction c generalizing readings st with
  | done a => exact ⟨a, st, rfl, h⟩
  | ask s next ih => exact ih _ (h st hst) (hasks.2 _) readings hreadings (step s st hasks.1 hst)
  | clock next ih =>
    exact ih _ (h _ (hreadings 0)) (hasks _ (hreadings 0)) _ (fun n => hreadings (n + 1)) hst
  | again => exact h.elim

end
end Call

namespace Service

variable {α β : Type} {clock : Instant → Prop} {met : Store → Prop}

def NeverFails (clock : Instant → Prop) (met : Store → Prop) (x : Service α) : Prop :=
  Call.YieldsAmid Store.engine clock met (fun r => ∃ a, r = .ok a) x.run

/-- Made alone, it answers, if its statements keep the rows as it needs them. -/
theorem NeverFails.alone {x : Service α} {r : Request} (h : x.NeverFails clock met)
    (hasks : x.Asks clock (Statement.AskedBy clock r))
    (step : ∀ s st, Statement.AskedBy clock r s → met st → met (Store.engine s st).2)
    {readings : Nat → Instant} (hreadings : ∀ n, clock (readings n)) {st : Store} (hst : met st) :
    ∃ a after, x.alone readings st = (some (.ok a), after) := by
  obtain ⟨_, after, halone, a, rfl⟩ := Call.YieldsAmid.alone h hasks step readings hreadings hst
  exact ⟨a, after, halone⟩

theorem neverFails_pure (a : α) : NeverFails clock met (pure a : Service α) := ⟨a, rfl⟩

theorem NeverFails.bind {x : Service α} {f : α → Service β} (hx : x.NeverFails clock met)
    (hf : ∀ a, (f a).NeverFails clock met) : (x >>= f).NeverFails clock met := by
  refine Call.YieldsAmid.bind hx ?_
  rintro _ ⟨a, rfl⟩
  exact hf a

/-- A call that never fails is answered as well when it is looked at. -/
theorem NeverFails.attempt_bind {x : Service α} {f : Except Failure α → Service β}
    (hx : x.NeverFails clock met) (hf : ∀ a, (f (.ok a)).NeverFails clock met) :
    (attempt x >>= f).NeverFails clock met := by
  rw [NeverFails, run_attempt_bind]
  refine Call.YieldsAmid.bind hx ?_
  rintro _ ⟨a, rfl⟩
  exact hf a

theorem neverFails_clock_bind {f : Instant → Service β}
    (hf : ∀ now, clock now → (f now).NeverFails clock met) :
    (Service.clock >>= f).NeverFails clock met := hf

theorem neverFails_ask_bind {s : Statement} {f : s.Answer → Service β}
    (hf : ∀ st, met st → (settle (Store.engine s st).1 >>= f).NeverFails clock met) :
    NeverFails clock met (bind (α := no_index s.Answer) (ask s) f) := hf

theorem neverFails_ask {s : Statement} (h : ∀ st, met st → ∃ a, (Store.engine s st).1 = .ok a) :
    NeverFails (α := no_index s.Answer) clock met (ask s) := h

end Service

/-! ### Passes whose ages are in reach -/

open Service

/-- The age can be taken off every time in the years that have four digits. -/
def InReach (age : Nat) : Prop := ∀ now : Instant, now.Storable → ¬ now.OutOfReach age

namespace Retention

variable {met : Store → Prop} {days age : Nat}

theorem deleteSessions_neverFails (hdays : 0 < days) (hreach : InReach (days * nanosPerDay)) :
    (deleteSessions days).NeverFails Instant.Storable met := by
  have hzero : (days == 0) = false := by simpa using Nat.ne_of_gt hdays
  simp only [deleteSessions, hzero, Bool.false_eq_true, if_false]
  refine neverFails_clock_bind fun now hnow => ?_
  rw [Orphans.cutoff_eq_ok hnow (hreach now hnow), settle_ok, pure_bind]
  exact neverFails_ask fun st _ => ⟨_, rfl⟩

theorem purgeEvents_neverFails (hreach : InReach age) :
    (purgeEvents age).NeverFails Instant.Storable met := by
  simp only [purgeEvents]
  refine neverFails_clock_bind fun now hnow => ?_
  rw [Orphans.cutoff_eq_ok hnow (hreach now hnow), settle_ok, pure_bind]
  exact neverFails_ask fun st _ => ⟨_, rfl⟩

/-- A sweep asks nothing of the rows that it meets. -/
theorem sweep_neverFails {policy : Policy} (hdays : 0 < policy.sessionDays)
    (hsessions : InReach (policy.sessionDays * nanosPerDay)) (hevents : InReach policy.eventAge) :
    (sweep policy).NeverFails Instant.Storable met := by
  refine (deleteSessions_neverFails hdays hsessions).attempt_bind fun deleted => ?_
  exact (purgeEvents_neverFails hevents).attempt_bind fun purged => neverFails_pure _

end Retention

namespace Orphans

variable {timeout : Nat} {action : OrphanAction}

/-- The rows that are found can be read, since their times have four-digit years. -/
theorem find_neverFails (hreach : InReach timeout) :
    (find timeout).NeverFails Instant.Storable Store.Dated := by
  simp only [find]
  refine neverFails_clock_bind fun now hnow => ?_
  rw [cutoff_eq_ok hnow (hreach now hnow), settle_ok, pure_bind]
  refine neverFails_ask_bind fun st hst => ?_
  have hread : (staleRows (now.plus (-timeout)) st).mapM SessionRow.read =
      .ok ((staleRows (now.plus (-timeout)) st).map (·.map Stamp.named)) :=
    mapM_ok fun r hr => SessionRow.read_eq_ok (hst.sessions r (mem_staleRows.mp hr).1).readable
  exact ⟨_, hread⟩

theorem recover_neverFails {met : Store → Prop} (observed : Session) :
    (recover observed action).NeverFails Instant.Storable met := by
  refine neverFails_clock_bind fun now _ => ?_
  cases action with
  | report => exact neverFails_pure false
  | fail | requeue => exact neverFails_ask_bind fun st _ => ⟨_, rfl⟩

theorem recoverEach_neverFails {met : Store → Prop} (orphans : List Session) :
    (recoverEach action orphans).NeverFails Instant.Storable met := by
  induction orphans with
  | nil => exact neverFails_pure 0
  | cons observed rest ih =>
    refine (recover_neverFails observed).attempt_bind fun changed => ?_
    exact ih.bind fun count => neverFails_pure _

theorem scan_neverFails (hreach : InReach timeout) :
    (scan timeout action).NeverFails Instant.Storable Store.Dated := by
  refine (find_neverFails hreach).bind fun orphans => ?_
  exact (recoverEach_neverFails orphans).bind fun count => neverFails_pure _

end Orphans

namespace Pool

/-- The next turn of a call is a step of its flight. -/
theorem getElem?_run_concat {α σ : Type} {engine : Engine σ} {schedule : List (Nat × Instant)}
    {p : Pool α} {st : σ} {i : Nat} {f : Flight α} (hf : (run engine schedule p st).1[i]? = some f)
    (now : Instant) : (run engine (schedule ++ [(i, now)]) p st).1[i]? =
      some (f.step engine now (run engine schedule p st).2).1 := by
  rw [run_append]
  exact (getElem?_step hf i now).trans (congrArg some (if_pos rfl))

variable {requests : List Request} {schedule : List (Nat × Instant)} {st : Store}

/-- Requests keep the times of the rows within the years that have four digits. -/
theorem dated_run (requests : List Request) (hclock : ∀ turn ∈ schedule, turn.2.Storable)
    (hst : st.Dated) : (run Store.engine schedule (Request.replies requests) st).2.Dated := by
  rw [← store_replies]
  refine run_keeps schedule (Request.pool requests) st (fun turn hturn => hclock turn hturn)
    (Request.pool_asks requests fun _ => Instant.Storable) (I := fun _ st => st.Dated) hst ?_
  intro log i s st hasked hst
  obtain ⟨r, _, hs⟩ := hasked
  exact hst.engine hs

section
variable (hclock : ∀ turn ∈ schedule, turn.2.Storable) (hst : st.Dated) {i : Nat}
  {request : Request} (hrequest : requests[i]? = some request)
  (hnever : request.replying.NeverFails Instant.Storable Store.Dated)
include hclock hst hrequest hnever

/-- Where a request that never fails stands in a run, it will not fail from there either. -/
theorem yieldsAmid_of_neverFails : ∃ f : Flight (Except Failure Reply),
    (run Store.engine schedule (Request.replies requests) st).1[i]? = some f ∧
      f.rest.YieldsAmid Store.engine Instant.Storable Store.Dated fun r => ∃ a, r = .ok a := by
  obtain ⟨f, hf, hcourse⟩ := course_replies schedule st hrequest
  refine ⟨f, hf, hnever.of_course hcourse (fun now hnow => hclock (i, now) hnow) fun e he => ?_⟩
  obtain ⟨first, rest, hlog⟩ := List.append_of_mem (List.mem_filter.mp he).1
  obtain ⟨made, later, rfl, hbefore⟩ := before_run hlog
  rw [hbefore]
  exact dated_run requests (fun turn hturn => hclock turn (List.mem_append_left _ hturn)) hst

/-- It has not failed once it has been answered. -/
theorem ok_of_reply? {reply : Except Failure Reply}
    (hreply : reply? i (run Store.engine schedule (Request.replies requests) st).1 = some reply) :
    ∃ answer, reply = .ok answer := by
  obtain ⟨f, hf, hyields⟩ := yieldsAmid_of_neverFails hclock hst hrequest hnever
  rw [reply?, hf] at hreply
  change f.answer? = some reply at hreply
  unfold Flight.answer? at hreply
  split at hreply
  · next hrest =>
    cases hreply
    rwa [hrest] at hyields
  · cases hreply

/-- And turns of its own are enough for it to be answered, wherever it stands. -/
theorem exists_reply {now : Instant} (hnow : now.Storable) : ∃ turns answer,
    reply? i (run Store.engine (schedule ++ List.replicate turns (i, now))
      (Request.replies requests) st).1 = some (.ok answer) := by
  have hmore {schedule : List (Nat × Instant)} (hclock : ∀ turn ∈ schedule, turn.2.Storable) :
      ∀ turn ∈ schedule ++ [(i, now)], turn.2.Storable := by
    intro turn hturn
    rcases List.mem_append.mp hturn with hold | hnew
    · exact hclock turn hold
    · rwa [List.mem_singleton.mp hnew]
  have hlater (schedule : List (Nat × Instant)) (turns : Nat) :
      schedule ++ List.replicate (turns + 1) (i, now) =
        schedule ++ [(i, now)] ++ List.replicate turns (i, now) := by
    rw [List.replicate_succ, List.append_assoc, List.singleton_append]
  obtain ⟨⟨call, rest⟩, hf, hyields⟩ := yieldsAmid_of_neverFails hclock hst hrequest hnever
  -- The induction is on what is left of the call, of which each turn of its own takes a step.
  induction rest generalizing schedule with
  | done a =>
    obtain ⟨answer, rfl⟩ := hyields
    refine ⟨0, answer, ?_⟩
    rw [List.replicate_zero, List.append_nil, reply?, hf]
    rfl
  | ask s next ih =>
    have hdated := dated_run requests hclock hst
    obtain ⟨turns, answer, h⟩ := ih _ (hmore hclock) (getElem?_run_concat hf now) (hyields _ hdated)
    exact ⟨turns + 1, answer, by rwa [hlater]⟩
  | clock next ih =>
    obtain ⟨turns, answer, h⟩ := ih _ (hmore hclock) (getElem?_run_concat hf now) (hyields now hnow)
    exact ⟨turns + 1, answer, by rwa [hlater]⟩
  | again => exact hyields.elim

end
end Pool

namespace Config

variable {c : Config}

def passes (c : Config) : List Request := [.sweep c.retention, .scan c.orphanAge c.orphanAction]

theorem inReach_of_mem_ages (h : ∀ setting : Setting, setting.Sound c) {age : Nat}
    (hage : age ∈ c.ages) : InReach age := fun _ hnow => not_outOfReach hnow (ages_le h age hage)

theorem sweep_neverFails {met : Store → Prop} (h : ∀ setting : Setting, setting.Sound c) :
    (Retention.sweep c.retention).NeverFails Instant.Storable met :=
  Retention.sweep_neverFails (h .sessionDays).1 (inReach_of_mem_ages h (by simp [ages]))
    (inReach_of_mem_ages h (by simp [ages]))

theorem scan_neverFails (h : ∀ setting : Setting, setting.Sound c) :
    (Orphans.scan c.orphanAge c.orphanAction).NeverFails Instant.Storable Store.Dated :=
  Orphans.scan_neverFails (inReach_of_mem_ages h (by simp [ages]))

theorem passes_neverFail (h : ∀ setting : Setting, setting.Sound c) :
    ∀ request ∈ c.passes, request.replying.NeverFails Instant.Storable Store.Dated := by
  intro request hpass
  rcases List.mem_cons.mp hpass with rfl | hscan
  · exact (sweep_neverFails h).bind fun report => neverFails_pure _
  · obtain rfl := List.mem_singleton.mp hscan
    exact (scan_neverFails h).bind fun scan => neverFails_pure _

/-- A text that is accepted as a configuration has every deadline, age and interval positive and
within its bound, and a pod whose name is not blank. The ages that it gives the background tasks can
be taken off every reading of the clock in the years that have four digits, into the years before
them if need be. So, where all times lie in these years, a sweep or a scan that is made alone
answers, and answers no failure; and among other requests, however these overlap, neither has failed
once it has been answered, and turns of its own are enough for it to be answered. A text in which
one of these numbers is zero, or less, or beyond its bound is rejected as a configuration. -/
theorem accepted_passes_never_fail (host : Option String) (suffix text : String) :
    (∀ c, ofText host suffix text = .ok c →
      (∀ setting : Setting, setting.Sound c) ∧
      (∃ pod, c.podId = some pod ∧ Text.isBlank pod = false) ∧
      (∀ now : Instant, now.Storable → ∀ age ∈ c.ages,
        ¬ now.OutOfReach age ∧ now.before? age = some (now.plus (-age))) ∧
      (∀ (st : Store) (readings : Nat → Instant), st.Dated → (∀ n, (readings n).Storable) →
        (∃ report after, (Retention.sweep c.retention).alone readings st =
          (some (.ok report), after)) ∧
        ∃ scan after, (Orphans.scan c.orphanAge c.orphanAction).alone readings st =
          (some (.ok scan), after)) ∧
      ∀ (requests : List Request) (schedule : List (Nat × Instant)) (st : Store) (i : Nat),
        st.Dated → (∀ turn ∈ schedule, turn.2.Storable) →
        ∀ request ∈ c.passes, requests[i]? = some request →
        (∀ reply, Pool.reply? i (Pool.run Store.engine schedule (Request.replies requests) st).1 =
          some reply → ∃ answer, reply = .ok answer) ∧
        ∀ now : Instant, now.Storable → ∃ turns answer,
          Pool.reply? i (Pool.run Store.engine (schedule ++ List.replicate turns (i, now))
            (Request.replies requests) st).1 = some (.ok answer)) ∧
    ∀ (fields : Toml.Fields) (setting : Setting) (n : Int), Toml.read? text = some fields →
      setting.given? fields = some (.int n) → setting.IsFault n →
      ∃ fault, ofText host suffix text = .error (.config fault) := by
  refine ⟨fun c htext => ?_, fun fields setting n => ofText_of_isFault⟩
  have hsound := sound_of_ofText htext
  refine ⟨hsound, podId_of_ofText htext, fun now hnow age hage => ?_,
    fun st readings hst hreadings => ?_,
    fun requests schedule st i hst hclock request hpass hrequest => ?_⟩
  · have hreach := inReach_of_mem_ages hsound hage now hnow
    exact ⟨hreach, Instant.before?_eq_some hnow hreach⟩
  · exact ⟨(sweep_neverFails hsound).alone (Retention.asks_sweep c.retention)
      (fun _ _ hs hdated => hdated.engine hs) hreadings hst,
      (scan_neverFails hsound).alone (Orphans.asks_scan c.orphanAge c.orphanAction)
        (fun _ _ hs hdated => hdated.engine hs) hreadings hst⟩
  · have hnever := passes_neverFail hsound request hpass
    exact ⟨fun reply => Pool.ok_of_reply? hclock hst hrequest hnever,
      fun now => Pool.exists_reply hclock hst hrequest hnever⟩

def document (days : String) : String :=
  "database_path = \"a.db\"\norphans = [3153600000, 1, \"fail\"]\n[retention]\n" ++
    "event_ttl_seconds = 3153600000\nsession_retention_days = " ++ days ++ "\n"

def yearZero : Instant := ⟨-62167219200000000000⟩

/-- A hundred years lead back from the year 0 to the year -100, and a sweep and a scan find nothing
that is so old. A day more is not accepted. -/
theorem longest_ages_accepted :
    (∃ c, ofText none "0" (document "36500") = .ok c ∧
      (∃ before, yearZero.before? (c.retention.sessionDays * Retention.nanosPerDay) = some before) ∧
      (∃ report after, (Retention.sweep c.retention).alone (fun _ => yearZero)
        (OneExecution.store .active) = (some (.ok report), after)) ∧
      ∃ turns answer, Pool.reply? 0 (Pool.run Store.engine
        ([(1, yearZero)] ++ List.replicate turns (0, yearZero)) (Request.replies c.passes)
          (OneExecution.store .active)).1 = some (.ok answer)) ∧
    ∃ fault, ofText none "0" (document "36501") = .error (.config fault) := by
  have hdated : (OneExecution.store .active).Dated :=
    (OneExecution.reached_store .active (by decide)).dated
  have hnow : yearZero.Storable := by decide
  have haccepted : (ofText none "0" (document "36500")).isOk = true := by decide +kernel
  have hnumber : ((Toml.read? (document "36501")).bind Setting.sessionDays.given?).bind number? =
      some 36501 := by decide +kernel
  obtain ⟨v, hgiven, hv⟩ := Option.bind_eq_some_iff.mp hnumber
  obtain ⟨fields, hfields, hgiven⟩ := Option.bind_eq_some_iff.mp hgiven
  rw [eq_of_natural? hv] at hgiven
  refine ⟨?_, (accepted_passes_never_fail none "0" (document "36501")).2 fields .sessionDays
    36501 hfields hgiven (.inr ⟨maxDays, rfl, by decide⟩)⟩
  cases htext : ofText none "0" (document "36500") with
  | error e =>
    rw [htext] at haccepted
    cases haccepted
  | ok c =>
    obtain ⟨_, _, hages, halone, hpool⟩ :=
      (accepted_passes_never_fail none "0" (document "36500")).1 c htext
    have hturns := hpool c.passes [(1, yearZero)] (OneExecution.store .active) 0 hdated
      (by simpa using hnow) _ List.mem_cons_self rfl
    exact ⟨c, rfl, ⟨_, (hages yearZero hnow _ List.mem_cons_self).2⟩,
      (halone _ (fun _ => yearZero) hdated fun _ => hnow).1, hturns.2 yearZero hnow⟩

end Config
end AlertDesk
