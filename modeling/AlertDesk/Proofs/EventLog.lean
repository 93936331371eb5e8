import AlertDesk.Proofs.SweepCounts

/-!
The event log. However calls overlap, the events that are there are those that were published and
have not been removed since, in the order in which they were inserted; their numbers go up all the
time, and a number that was given out is never given out again. What a cleanup removes is older than
it says.
-/
namespace AlertDesk

def Event.row (ev : Event) : EventRow where
  id := ev.id
  sessionId := ev.sessionId
  channel := ev.channel
  payload := ev.payload.text
  createdAt := .ofInstant ev.createdAt

theorem Event.read_row {ev : Event}
    (hpayload : Json.read? Json.storedDepth ev.payload.text = some ev.payload)
    (htime : ev.createdAt.Storable) :
    ev.row.read = .ok { ev with createdAt := ev.createdAt.cut } := by
  have hcreated : ev.row.createdAt.read "created_at" = .ok ev.createdAt.cut :=
    Stamp.read_ofInstant htime _
  have htext : Json.read? Json.storedDepth ev.row.payload = some ev.payload := hpayload
  simp only [EventRow.read, htext, hcreated]
  rfl

namespace Pool

variable {log : List (Entry Store)} {e : Entry Store} {st : Store} {r : EventRow}
  {requests : List Request} {schedule : List (Nat × Instant)}

def inserted (log : List (Entry Store)) : List EventRow :=
  log.flatMap fun e => e.statement.newEvents e.before

def Entry.removes (id : Int) (e : Entry Store) : Bool :=
  e.before.events.any (·.id == id) &&
    !(Store.engine e.statement e.before).2.events.any (·.id == id)

/-- The events that are there are those that were inserted and not removed, and were numbered
upwards. -/
structure Logged (log : List (Entry Store)) (st : Store) : Prop where
  events : st.events = (inserted log).filter fun r => !log.any (Entry.removes r.id)
  numbered : (inserted log).Pairwise (·.id < ·.id)
  below : ∀ r ∈ inserted log, r.id ≤ st.lastEventId
  met : ∀ e ∈ log, ∀ r ∈ e.before.events, r ∈ inserted log

theorem Logged.mem (h : Logged log st) (hr : r ∈ st.events) : r ∈ inserted log := by
  rw [h.events] at hr
  exact (List.mem_filter.mp hr).1

theorem eq_of_id (hnumbered : (inserted log).Pairwise (·.id < ·.id)) {r r' : EventRow}
    (hr : r ∈ inserted log) (hr' : r' ∈ inserted log) (hid : r.id = r'.id) : r = r' := by
  have hnodup : ((inserted log).map (·.id)).Nodup :=
    List.pairwise_map.mpr (hnumbered.imp fun hlt => Int.ne_of_lt hlt)
  exact List.inj_on_of_nodup_map hnodup hr hr' hid

/-- A statement removes the events that are there and that it does not spare. -/
theorem Logged.removes_eq (h : Logged log e.before) (hr : r ∈ e.before.events) :
    e.removes r.id = !e.statement.sparesEvent r := by
  have hthere : e.before.events.any (·.id == r.id) = true := List.any_eq_true.mpr ⟨r, hr, by simp⟩
  have hnew : (e.statement.newEvents e.before).any (·.id == r.id) = false := by
    rw [List.any_eq_false]
    intro new hmem hid
    have hbelow := h.below r (h.mem hr)
    have habove := (Statement.lt_id_of_mem_newEvents hmem).1
    have hsame : new.id = r.id := beq_iff_eq.mp hid
    omega
  have hold : (e.before.events.filter e.statement.sparesEvent).any (·.id == r.id) =
      e.statement.sparesEvent r := by
    rw [Bool.eq_iff_iff, List.any_eq_true]
    constructor
    · intro hfound
      obtain ⟨r', hr', hid⟩ := hfound
      obtain ⟨hmem, hspared⟩ := List.mem_filter.mp hr'
      rwa [← eq_of_id h.numbered (h.mem hmem) (h.mem hr) (beq_iff_eq.mp hid)]
    · exact fun hspared => ⟨r, List.mem_filter.mpr ⟨hr, hspared⟩, beq_self_eq_true _⟩
  rw [Entry.removes, hthere, Statement.engine_events, List.any_append, hold, hnew, Bool.or_false,
    Bool.true_and]

/-- What a statement removes had been inserted. -/
theorem Logged.mem_of_removes (h : Logged log st) {id : Int} (he : e ∈ log)
    (hremoves : e.removes id = true) : ∃ r ∈ inserted log, r.id = id := by
  obtain ⟨hthere, _⟩ := Bool.and_eq_true_iff.mp hremoves
  obtain ⟨r, hr, hid⟩ := List.any_eq_true.mp hthere
  exact ⟨r, h.met e he r hr, beq_iff_eq.mp hid⟩

theorem inserted_concat (log : List (Entry Store)) (e : Entry Store) :
    inserted (log ++ [e]) = inserted log ++ e.statement.newEvents e.before := by simp [inserted]

/-- The events that the statement spares are those that it, too, has not removed. -/
theorem Logged.spared (h : Logged log e.before) : e.before.events.filter e.statement.sparesEvent =
    (inserted log).filter fun r => !(log ++ [e]).any (Entry.removes r.id) := by
  nth_rewrite 1 [h.events]
  rw [List.filter_filter]
  refine List.filter_congr fun r hr => ?_
  rw [List.any_append]
  cases hremoved : log.any (Entry.removes r.id) with
  | true => simp
  | false =>
    have hthere : r ∈ e.before.events := by
      rw [h.events]
      exact List.mem_filter.mpr ⟨hr, by rw [hremoved]; rfl⟩
    simp [h.removes_eq hthere]

/-- Nothing has been removed under the number of a new event. -/
theorem Logged.not_removes_new (h : Logged log e.before)
    (hr : r ∈ e.statement.newEvents e.before) : ∀ e' ∈ log ++ [e], e'.removes r.id = false := by
  intro e' he
  rw [Bool.eq_false_iff]
  intro hremoves
  have hbefore : ∃ r' ∈ inserted log, r'.id = r.id := by
    rcases List.mem_append.mp he with hmem | hlast
    · exact h.mem_of_removes hmem hremoves
    · rw [List.mem_singleton.mp hlast] at hremoves
      obtain ⟨r', hr', hid⟩ := List.any_eq_true.mp (Bool.and_eq_true_iff.mp hremoves).1
      exact ⟨r', h.mem hr', beq_iff_eq.mp hid⟩
  obtain ⟨r', hr', hid⟩ := hbefore
  have hbelow := h.below r' hr'
  have habove := (Statement.lt_id_of_mem_newEvents hr).1
  omega

theorem Logged.engine (h : Logged log e.before) :
    Logged (log ++ [e]) (Store.engine e.statement e.before).2 where
  events := by
    have hadded : (e.statement.newEvents e.before).filter
        (fun r => !(log ++ [e]).any (Entry.removes r.id)) = e.statement.newEvents e.before := by
      refine List.filter_eq_self.mpr fun r hr => ?_
      rw [Bool.not_eq_true', List.any_eq_false]
      exact fun e' he => Bool.eq_false_iff.mp (h.not_removes_new hr e' he)
    rw [Statement.engine_events, inserted_concat, List.filter_append, h.spared, hadded]
  numbered := by
    have hnew : (e.statement.newEvents e.before).Pairwise (·.id < ·.id) := by
      rcases e.statement.engine_lastEventId e.before with ⟨hnil, _⟩ | ⟨row, hrow, _⟩
      · rw [hnil]
        exact .nil
      · rw [hrow]
        exact List.pairwise_singleton ..
    rw [inserted_concat, List.pairwise_append]
    exact ⟨h.numbered, hnew, fun r hr new hmem =>
      Int.lt_of_le_of_lt (h.below r hr) (Statement.lt_id_of_mem_newEvents hmem).1⟩
  below := by
    rw [inserted_concat]
    intro r hr
    rcases List.mem_append.mp hr with hold | hmem
    · have hbelow := h.below r hold
      rcases e.statement.engine_lastEventId e.before with ⟨_, hlast⟩ | ⟨row, _, hlt, hlast⟩
      · omega
      · omega
    · exact Int.le_of_eq (Statement.lt_id_of_mem_newEvents hmem).2.symm
  met := by
    rw [inserted_concat]
    intro e' he r hr
    rcases List.mem_append.mp he with hold | hlast
    · exact List.mem_append_left _ (h.met e' hold r hr)
    · rw [List.mem_singleton.mp hlast] at hr
      exact List.mem_append_left _ (h.mem hr)

theorem logged_empty : Logged [] {} := ⟨rfl, .nil, by simp [inserted], by simp⟩

theorem logged_run (requests : List Request) (schedule : List (Nat × Instant)) :
    Logged (Pool.log Store.engine schedule (Request.pool requests) {})
      (run Store.engine schedule (Request.pool requests) {}).2 :=
  run_keeps schedule (Request.pool requests) ({} : Store) (fun _ _ => trivial)
    (Request.pool_asks requests fun _ _ => True) logged_empty
    fun _ i s st _ h => h.engine (e := ⟨i, s, st⟩)

theorem logged_before {first rest : List (Entry Store)}
    (hlog : Pool.log Store.engine schedule (Request.pool requests) {} = first ++ e :: rest) :
    Logged first e.before :=
  (run_keeps_before schedule (Request.pool requests) ({} : Store) (fun _ _ => trivial)
    (Request.pool_asks requests fun _ _ => True) logged_empty
    (fun _ i s st _ h => h.engine (e := ⟨i, s, st⟩)) hlog).1

end Pool

/-! ### Calls of the log -/

open Service

/-- A request to publish has asked nothing yet, or it has inserted its event and answers with it. -/
theorem Request.course_publish {clock : Instant → Prop} {sessionId : Option String}
    {channel : String} {payload : Json} {whole rest : Call (Except Failure Reply)}
    {es : List (Pool.Entry Store)}
    (h : Call.Course Store.engine clock whole (publish sessionId channel payload).replying.run
      es rest) :
    (es = [] ∧ ∀ reply, rest ≠ .done (.ok reply)) ∨
    ∃ i st now, clock now ∧
      es = [⟨i, .insertEvent sessionId channel payload.text (.ofInstant now), st⟩] ∧
      rest = .done (.ok (.event
        { id := st.nextEventId, sessionId, channel, payload, createdAt := now })) := by
  simp only [replying, Sessions.publish, Rows.createEvent, bind_assoc] at h
  rcases course_clock_bind h with ⟨hnil, hgoing⟩ | ⟨now, hnow, h⟩
  · exact .inl ⟨hnil, fun _ => hgoing _⟩
  · cases hcheck : checkAll [(!Text.isBlank channel, "channel", .required)] with
    | error e =>
      rw [hcheck, settle_error, throw_bind] at h
      obtain ⟨rfl, rfl⟩ := course_settle (r := .error e) h
      refine .inl ⟨rfl, fun _ hdone => ?_⟩
      cases hdone
    | ok _ =>
      rw [hcheck, settle_ok, pure_bind] at h
      rcases course_ask_bind h with ⟨hnil, hgoing⟩ | ⟨i, st, later, rfl, hlast⟩
      · exact .inl ⟨hnil, fun _ => hgoing _⟩
      · obtain ⟨rfl, rfl⟩ := course_settle (r := .ok _) hlast
        exact .inr ⟨i, st, now, hnow, rfl, rfl⟩

/-- A cleanup with an age that is no good asks nothing; any other asks one statement, and answers
how many events this does not spare. -/
theorem Retention.ends_purgeEvents {clock : Instant → Prop} {es : List (Pool.Entry Store)}
    {age : Nat} {answer : Except Failure Nat} (h : (purgeEvents age).Ends clock es answer) :
    (∃ look, es = [look] ∧
      answer = .ok (look.before.events.countP fun r => !look.statement.sparesEvent r)) ∨
    (es = [] ∧ FailsWith .validation answer) := by
  simp only [purgeEvents] at h
  obtain ⟨now, _, h⟩ := ends_clock_bind.mp h
  rcases Orphans.ends_cutoff_bind h with ⟨before, _, h⟩ | ⟨_, rfl, rfl⟩
  · obtain ⟨i, st, rfl, rfl⟩ := ends_ask h
    refine .inl ⟨_, rfl, ?_⟩
    simp only [Statement.sparesEvent, Bool.not_not]
    rfl
  · exact .inr ⟨rfl, failsWith_validation _ _⟩

namespace Pool

variable {log : List (Entry Store)} {e : Entry Store} {r : EventRow} {requests : List Request}
  {schedule : List (Nat × Instant)}

def Entry.inserts (e : Entry Store) : Bool :=
  match e.statement with
  | .insertEvent _ _ _ _ => true
  | _ => false

/-- The statement is carried out for a request to publish this event, which answers with it. -/
structure Entry.Publishes (requests : List Request) (schedule : List (Nat × Instant))
    (e : Entry Store) (ev : Event) : Prop where
  request : requests[e.caller]? = some (.publish ev.sessionId ev.channel ev.payload)
  time : (e.caller, ev.createdAt) ∈ schedule
  reply : reply? e.caller (run Store.engine schedule (Request.replies requests) {}).1 =
    some (.ok (.event ev))

theorem Entry.newEvents_of_not_inserts (h : e.inserts = false) :
    e.statement.newEvents e.before = [] := by
  unfold inserts at h
  split at h
  · cases h
  · next hno =>
    cases hs : e.statement with
    | insertEvent => exact absurd hs (hno _ _ _ _)
    | _ => rfl

theorem publishes_of_inserts (he : e ∈ Pool.log Store.engine schedule (Request.replies requests) {})
    (hinserts : e.inserts = true) :
    ∃ ev : Event, e.statement.newEvents e.before = [ev.row] ∧ e.Publishes requests schedule ev := by
  obtain ⟨request, hrequest, hs⟩ := askedBy_of_mem_log he
  obtain ⟨f, hf, hcourse⟩ := course_replies schedule {} hrequest
  have hown : e ∈ own e.caller (Pool.log Store.engine schedule (Request.replies requests) {}) :=
    List.mem_filter.mpr ⟨he, beq_self_eq_true _⟩
  unfold Entry.inserts at hinserts
  split at hinserts
  · next sessionId channel payload createdAt hstatement =>
    rw [hstatement] at hs
    obtain ⟨_, _, value, rfl, rfl⟩ := hs
    rcases Request.course_publish hcourse with ⟨hnil, _⟩ | ⟨i, st, now, hnow, hone, hrest⟩
    · rw [hnil] at hown
      cases hown
    · rw [hone] at hown
      have he' := List.mem_singleton.mp hown
      refine ⟨{ id := st.nextEventId, sessionId, channel, payload := value, createdAt := now }, ?_,
        hrequest, hnow, ?_⟩
      · rw [he']
        rfl
      · rw [reply?, hf]
        change f.answer? = _
        rw [Flight.answer?, hrest]
  · cases hinserts

/-- The events of a run, one for each statement that inserts one. -/
theorem exists_published (requests : List Request) (schedule : List (Nat × Instant))
    (es : List (Entry Store))
    (hes : ∀ e ∈ es, e ∈ Pool.log Store.engine schedule (Request.replies requests) {}) :
    ∃ published : List Event,
      List.Forall₂ (Entry.Publishes requests schedule) (es.filter Entry.inserts) published ∧
      inserted es = published.map (·.row) := by
  induction es with
  | nil => exact ⟨[], .nil, rfl⟩
  | cons e es ih =>
    obtain ⟨he, hrest⟩ := List.forall_mem_cons.mp hes
    obtain ⟨published, hpublished, hrows⟩ := ih hrest
    have hcons : inserted (e :: es) = e.statement.newEvents e.before ++ inserted es := rfl
    cases hinserts : e.inserts with
    | true =>
      obtain ⟨ev, hrow, hev⟩ := publishes_of_inserts he hinserts
      rw [List.filter_cons_of_pos hinserts, hcons, hrow, hrows]
      exact ⟨ev :: published, .cons hev hpublished, rfl⟩
    | false =>
      have hnone : ¬ e.inserts = true := Bool.eq_false_iff.mp hinserts
      rw [List.filter_cons_of_neg hnone, hcons, Entry.newEvents_of_not_inserts hinserts, hrows]
      exact ⟨published, hpublished, rfl⟩

/-- A request to publish that succeeds has inserted an event and answers with it. -/
theorem publishes_of_reply {i : Nat} {sessionId : Option String} {channel : String} {payload : Json}
    {reply : Reply} (hrequest : requests[i]? = some (.publish sessionId channel payload))
    (hreply : reply? i (run Store.engine schedule (Request.replies requests) {}).1 =
      some (.ok reply)) :
    ∃ e ∈ Pool.log Store.engine schedule (Request.replies requests) {},
      e.caller = i ∧ e.inserts = true := by
  obtain ⟨whole, hcourse⟩ := ends_of_reply? hrequest hreply
  rcases Request.course_publish hcourse with ⟨_, hgoing⟩ | ⟨j, st, now, _, hone, _⟩
  · exact absurd rfl (hgoing reply)
  · have hmem :
      (⟨j, .insertEvent sessionId channel payload.text (.ofInstant now), st⟩ : Entry Store) ∈
        own i (Pool.log Store.engine schedule (Request.replies requests) {}) := by
      rw [hone]
      exact List.mem_singleton_self _
    obtain ⟨he, hcaller⟩ := List.mem_filter.mp hmem
    exact ⟨_, he, beq_iff_eq.mp hcaller, rfl⟩

/-- A cleanup that succeeds answers how many events its statement has removed. -/
theorem removes_of_reply {i age : Nat} {reply : Reply}
    (hrequest : requests[i]? = some (.purgeEvents age))
    (hreply : reply? i (run Store.engine schedule (Request.replies requests) {}).1 =
      some (.ok reply)) :
    ∃ e, own i (Pool.log Store.engine schedule (Request.replies requests) {}) = [e] ∧
      reply = .rows (e.before.events.countP fun r => e.removes r.id) := by
  obtain ⟨answer, hends, hanswer⟩ := Service.ends_bind_pure
    (Retention.asksOnly_purgeEvents (P := fun _ => True) age fun _ => trivial)
    (ends_of_reply? hrequest hreply)
  rcases Retention.ends_purgeEvents hends with ⟨e, hone, rfl⟩ | ⟨_, e, rfl, _⟩
  · cases hanswer
    refine ⟨e, hone, ?_⟩
    have he : e ∈ Pool.log Store.engine schedule (Request.pool requests) {} := by
      have hmem : e ∈ own i (Pool.log Store.engine schedule (Request.replies requests) {}) := by
        rw [hone]
        exact List.mem_singleton_self e
      rw [log_replies]
      exact (List.mem_filter.mp hmem).1
    obtain ⟨first, rest, hlog⟩ := List.append_of_mem he
    have hremoves : ∀ r ∈ e.before.events, e.removes r.id = !e.statement.sparesEvent r :=
      fun r hr => (logged_before hlog).removes_eq hr
    exact congrArg Reply.rows (List.countP_congr fun r hr => by rw [hremoves r hr])
  · cases hanswer

/-- What is removed is older than the age that the cleanup was given. -/
theorem older_of_removes {ev : Event} (hyears : ∀ x ∈ schedule, x.2.Storable)
    (he : e ∈ Pool.log Store.engine schedule (Request.replies requests) {})
    (hev : ev.row ∈ inserted (Pool.log Store.engine schedule (Request.replies requests) {}))
    (htime : ev.createdAt.Storable) (hremoves : e.removes ev.id = true) :
    ∃ age now, (requests[e.caller]? = some (.purgeEvents age) ∨
        ∃ days, requests[e.caller]? = some (.sweep ⟨days, age⟩)) ∧
      (e.caller, now) ∈ schedule ∧ ev.createdAt.nanos + age < now.nanos := by
  obtain ⟨request, hrequest, hs⟩ := askedBy_of_mem_log he
  have hlogged := logged_run requests schedule
  rw [log_replies] at hlogged
  obtain ⟨first, rest, hlog⟩ := List.append_of_mem he
  have hbefore : Logged first e.before := logged_before ((log_replies ..).trans hlog)
  obtain ⟨r, hr, hid⟩ := List.any_eq_true.mp (Bool.and_eq_true_iff.mp hremoves).1
  obtain rfl : r = ev.row :=
    eq_of_id hlogged.numbered (hlogged.met e he r hr) hev (beq_iff_eq.mp hid)
  have hgone : e.statement.sparesEvent ev.row = false := by
    have hsame := hbefore.removes_eq hr
    rw [show ev.row.id = ev.id from rfl, hremoves] at hsame
    exact (Bool.not_eq_true' _).mp hsame.symm
  cases hstatement : e.statement with
  | purgeEvents cutoff =>
    rw [hstatement] at hs hgone
    obtain ⟨age, now, before, hnow, hage, rfl, hasks⟩ := hs
    have hstorable : now.Storable := hyears (e.caller, now) hnow
    have htaken : ev.row.createdAt.Taken Instant.Storable := ⟨ev.createdAt, htime, rfl⟩
    have hlt : ev.row.createdAt < .ofInstant before := by simpa [Statement.sparesEvent] using hgone
    rw [Instant.eq_of_before? hage, Stamp.lt_iff_named_lt htaken hstorable] at hlt
    have holder : ev.row.createdAt.OlderThan age now := Stamp.olderThan_of_named_lt htaken hlt
    refine ⟨age, now, ?_, hnow, holder ev.createdAt rfl⟩
    rcases hasks with rfl | ⟨days, rfl⟩
    · exact .inl hrequest
    · exact .inr ⟨days, hrequest⟩
  | _ =>
    rw [hstatement] at hgone
    cases hgone

end Pool

/-- Events that are there in the order of their numbers are listed in this order. -/
theorem Rows.alone_events {st : Store} {events : List Event}
    (hevents : st.events = events.map (·.row)) (hnumbered : events.Pairwise (·.id < ·.id))
    (hread : ∀ ev ∈ events, Json.read? Json.storedDepth ev.payload.text = some ev.payload ∧
      ev.createdAt.Storable) (sessionId : String) (readings : Nat → Instant) :
    (Rows.events sessionId).alone readings st =
      (some (.ok ((events.filter (·.sessionId == some sessionId)).map fun ev =>
        { ev with createdAt := ev.createdAt.cut })), st) := by
  have hfilter : st.events.filter (·.sessionId == some sessionId) =
      (events.filter (·.sessionId == some sessionId)).map (·.row) := by
    rw [hevents, List.filter_map]
    rfl
  have hsorted : ((events.filter (·.sessionId == some sessionId)).map (·.row)).Pairwise
      fun a b => decide (a.id ≤ b.id) = true := by
    rw [List.pairwise_map]
    exact (hnumbered.filter _).imp fun hlt => decide_eq_true (Int.le_of_lt hlt)
  have hlisted : Store.engine (.listEvents sessionId) st =
      (.ok ((events.filter (·.sessionId == some sessionId)).map (·.row)), st) := by
    simp only [Store.engine, Statement.exec, hfilter, List.mergeSort_of_pairwise hsorted]
  have hall : ((events.filter (·.sessionId == some sessionId)).map (·.row)).mapM EventRow.read =
      .ok ((events.filter (·.sessionId == some sessionId)).map fun ev =>
        { ev with createdAt := ev.createdAt.cut }) := by
    rw [List.mapM_map]
    refine mapM_ok fun ev hev => ?_
    obtain ⟨hpayload, htime⟩ := hread ev (List.mem_filter.mp hev).1
    exact Event.read_row hpayload htime
  rw [Rows.events, alone_ask_bind, hlisted, settle_ok, pure_bind, Rows.readAll, hall]
  rfl

/-- How these published events are kept, listed and removed: in a run with this log, which leaves
these calls and this store behind. -/
structure Pool.KeptInOrder (requests : List Request) (schedule : List (Nat × Instant))
    (log : List (Entry Store)) (calls : Pool (Except Failure Reply)) (last : Store)
    (published : List Event) : Prop where
  inserted : List.Forall₂ (Entry.Publishes requests schedule) (log.filter Entry.inserts) published
  numbered : published.Pairwise (·.id < ·.id)
  answered : ∀ i sessionId channel payload reply,
    requests[i]? = some (.publish sessionId channel payload) →
    reply? i calls = some (.ok reply) → ∃ ev ∈ published, reply = .event ev
  listed : ∀ sessionId readings, (Rows.events sessionId).alone readings last =
    (some (.ok ((published.filter fun ev =>
        ev.sessionId == some sessionId && !log.any (Entry.removes ev.id)).map fun ev =>
          { ev with createdAt := ev.createdAt.cut })), last)
  counted : ∀ i age reply, requests[i]? = some (.purgeEvents age) →
    reply? i calls = some (.ok reply) → ∃ e, own i log = [e] ∧
      reply = .rows (e.before.events.countP fun r => e.removes r.id)
  older : ∀ e ∈ log, ∀ ev ∈ published, e.removes ev.id = true →
    ∃ age now, (requests[e.caller]? = some (.purgeEvents age) ∨
        ∃ days, requests[e.caller]? = some (.sweep ⟨days, age⟩)) ∧
      (e.caller, now) ∈ schedule ∧ ev.createdAt.nanos + age < now.nanos

/-- However requests overlap from the empty store on, the events that they publish, in the order
of their insertion, have numbers that go up all the time; each comes from one request, which
answers with it. The events listed for a session are those that were published for it and have
not been removed, with their times cut to whole microseconds. A cleanup answers how many events
its statement has removed, and what is removed was published longer ago than the age that its
cleanup was given. -/
theorem Pool.events_kept_in_order (requests : List Request) (schedule : List (Nat × Instant))
    (hyears : ∀ x ∈ schedule, x.2.Storable)
    (hpayloads : ∀ sessionId channel payload, .publish sessionId channel payload ∈ requests →
      Json.read? Json.storedDepth payload.text = some payload) :
    let log := Pool.log Store.engine schedule (Request.replies requests) {}
    let final := Pool.run Store.engine schedule (Request.replies requests) {}
    ∃ published, KeptInOrder requests schedule log final.1 final.2 published := by
  intro log final
  obtain ⟨published, hpublished, hrows⟩ := exists_published requests schedule log fun _ he => he
  have hlogged : Logged log final.2 := by
    have hrun := logged_run requests schedule
    rwa [log_replies, store_replies] at hrun
  have hfrom : ∀ ev ∈ published, ∃ e ∈ log.filter Entry.inserts, e.Publishes requests schedule ev :=
    forall_of_forall₂ hpublished (fun e he => he) fun e ev hev he => ⟨e, he, hev⟩
  have hto : ∀ e ∈ log.filter Entry.inserts, ∃ ev ∈ published, e.Publishes requests schedule ev :=
    forall_of_forall₂ hpublished.flip (fun ev hev => hev) fun ev e he hev => ⟨ev, hev, he⟩
  have htime : ∀ ev ∈ published, ev.createdAt.Storable := by
    intro ev hev
    obtain ⟨e, _, hpublishes⟩ := hfrom ev hev
    exact hyears (e.caller, ev.createdAt) hpublishes.time
  have hnumbered : published.Pairwise (·.id < ·.id) := by
    have hinserted := hlogged.numbered
    rw [hrows, List.pairwise_map] at hinserted
    exact hinserted
  refine ⟨published, hpublished, hnumbered, ?_, ?_, fun i age reply => removes_of_reply, ?_⟩
  · intro i sessionId channel payload reply hrequest hreply
    obtain ⟨e, he, rfl, hinserts⟩ := publishes_of_reply hrequest hreply
    obtain ⟨ev, hev, hpublishes⟩ := hto e (List.mem_filter.mpr ⟨he, hinserts⟩)
    have hsame : Except.ok (Reply.event ev) = .ok reply :=
      Option.some.inj (hpublishes.reply.symm.trans hreply)
    exact ⟨ev, hev, (Except.ok.inj hsame).symm⟩
  · intro sessionId readings
    have hkept : final.2.events =
        (published.filter fun ev => !log.any (Entry.removes ev.id)).map (·.row) := by
      rw [hlogged.events, hrows, List.filter_map]
      rfl
    have hread : ∀ ev ∈ published.filter (fun ev => !log.any (Entry.removes ev.id)),
        Json.read? Json.storedDepth ev.payload.text = some ev.payload ∧ ev.createdAt.Storable := by
      intro ev hev
      have hmem := (List.mem_filter.mp hev).1
      obtain ⟨e, _, hpublishes⟩ := hfrom ev hmem
      exact ⟨hpayloads _ _ _ (List.mem_of_getElem? hpublishes.request), htime ev hmem⟩
    have hlisted := Rows.alone_events hkept (hnumbered.filter _) hread sessionId readings
    rwa [List.filter_filter] at hlisted
  · intro e he ev hev hremoves
    refine older_of_removes hyears he ?_ (htime ev hev) hremoves
    rw [hrows]
    exact List.mem_map_of_mem hev

/-! All events are cleaned up, and one more is published. -/

namespace Outlived

def hour : Instant := ⟨3600000000000⟩
def later : Instant := ⟨7200000001000⟩

def requests : List Request := [
  .publish (some "s") "alerts" (.str "disk full"),
  .publish (some "s") "alerts" (.str "disk free"),
  .purgeEvents 3600000000000,
  .publish (some "s") "alerts" (.str "disk gone")]

def schedule : List (Nat × Instant) :=
  [(1, ⟨0⟩), (0, hour), (0, hour), (1, hour), (2, later), (2, later), (3, later), (3, later)]

def final : Pool (Except Failure Reply) × Store :=
  Pool.run Store.engine schedule (Request.replies requests) {}

end Outlived

open Outlived in
theorem Pool.events_kept_in_order_outlived : ∃ published : List Event, published.length = 3 ∧
    published.Pairwise (·.id < ·.id) ∧ final.2.events.map (·.id) = [3] ∧
    (Rows.events "s").alone (fun _ => later) final.2 =
      (some (.ok ((published.filter fun ev => ev.sessionId == some "s" &&
          !(Pool.log Store.engine schedule (Request.replies requests) {}).any
            (Entry.removes ev.id)).map fun ev =>
        { ev with createdAt := ev.createdAt.cut })), final.2) := by
  have hyears : ∀ x ∈ schedule, x.2.Storable := by decide
  have hpayloads : ∀ sessionId channel payload, .publish sessionId channel payload ∈ requests →
      Json.read? Json.storedDepth payload.text = some payload := by
    intro sessionId channel payload hmem
    simp only [requests, List.mem_cons, Request.publish.injEq, reduceCtorEq, List.not_mem_nil,
      or_false, false_or] at hmem
    rcases hmem with ⟨_, _, rfl⟩ | ⟨_, _, rfl⟩ | ⟨_, _, rfl⟩
    all_goals rfl
  obtain ⟨published, hkept⟩ := events_kept_in_order requests schedule hyears hpayloads
  have hthree : ((Pool.log Store.engine schedule (Request.replies requests) {}).filter
      Entry.inserts).length = 3 := by decide +kernel
  have hleft : final.2.events.map (·.id) = [3] := by decide +kernel
  exact ⟨published, hkept.inserted.length_eq.symm.trans hthree, hkept.numbered, hleft,
    hkept.listed "s" _⟩

end AlertDesk
