import AlertDesk.Proofs.Alone
import AlertDesk.Proofs.TimeOrder
import AlertDesk.Proofs.Recomputing
import AlertDesk.Service.Orphans

/-!
Rows are read back. A record comes back from its row with its times cut to whole microseconds, and
is stored again as the same row. In the stores that requests leave behind while the clock stays
within the years that have four digits, all times are such; so whoever looks at them is never told
that a time cannot be read.
-/
namespace AlertDesk

/-! ### Records and their rows -/

structure SessionOf.EachTime {τ : Type} (P : τ → Prop) (s : SessionOf τ) : Prop where
  createdAt : P s.createdAt
  startedAt : ∀ t ∈ s.startedAt, P t
  lastInteractionAt : ∀ t ∈ s.lastInteractionAt, P t
  completedAt : ∀ t ∈ s.completedAt, P t
  deletedAt : ∀ t ∈ s.deletedAt, P t

structure StageOf.EachTime {τ : Type} (P : τ → Prop) (s : StageOf τ) : Prop where
  startedAt : ∀ t ∈ s.startedAt, P t
  completedAt : ∀ t ∈ s.completedAt, P t

structure ExecutionOf.EachTime {τ : Type} (P : τ → Prop) (e : ExecutionOf τ) : Prop where
  startedAt : ∀ t ∈ e.startedAt, P t
  completedAt : ∀ t ∈ e.completedAt, P t

namespace Stamp

theorem read_ofInstant {t : Instant} (h : t.Storable) (column : String) :
    (ofInstant t).read column = .ok t.cut := by
  rw [read, instant?_ofInstant h]
  rfl

theorem named_ofInstant {t : Instant} (h : t.Storable) : (ofInstant t).named = t.cut := by
  rw [named, instant?_ofInstant h]
  rfl

/-- A column that may be empty is read back as well. -/
theorem readable_map {o : Option Instant} (h : ∀ t ∈ o, t.Storable) :
    ∀ s ∈ o.map ofInstant, s.Readable := by
  intro s hs
  obtain ⟨t, ht, rfl⟩ := Option.map_eq_some_iff.mp hs
  exact readable_ofInstant (h t ht)

theorem named_map {o : Option Instant} (h : ∀ t ∈ o, t.Storable) :
    (o.map ofInstant).map named = o.map Instant.cut := by
  rw [Option.map_map]
  exact Option.map_congr fun t ht => named_ofInstant (h t ht)

end Stamp

theorem Session.read_row {s : Session} (h : s.EachTime Instant.Storable) :
    s.row.read = .ok (s.map Instant.cut) := by
  have hreadable : s.row.Readable :=
    ⟨Stamp.readable_ofInstant h.createdAt, Stamp.readable_map h.startedAt,
      Stamp.readable_map h.lastInteractionAt, Stamp.readable_map h.completedAt,
      Stamp.readable_map h.deletedAt⟩
  rw [SessionRow.read_eq_ok hreadable]
  simp only [Session.row, SessionOf.map, Stamp.named_ofInstant h.createdAt,
    Stamp.named_map h.startedAt, Stamp.named_map h.lastInteractionAt,
    Stamp.named_map h.completedAt, Stamp.named_map h.deletedAt]

theorem Stage.read_row {s : Stage} (h : s.EachTime Instant.Storable) :
    s.row.read = .ok (s.map Instant.cut) := by
  have hreadable : s.row.Readable :=
    ⟨Stamp.readable_map h.startedAt, Stamp.readable_map h.completedAt⟩
  rw [StageRow.read_eq_ok hreadable]
  simp only [Stage.row, StageOf.map, Stamp.named_map h.startedAt, Stamp.named_map h.completedAt]

theorem Execution.read_row {e : Execution} (h : e.EachTime Instant.Storable) :
    e.row.read = .ok (e.map Instant.cut) := by
  have hreadable : e.row.Readable :=
    ⟨Stamp.readable_map h.startedAt, Stamp.readable_map h.completedAt⟩
  rw [ExecutionRow.read_eq_ok hreadable]
  simp only [Execution.row, ExecutionOf.map, Stamp.named_map h.startedAt,
    Stamp.named_map h.completedAt]

/-! ### Insertions that are read back -/

namespace Store

variable {st after : Store}

/-- A row that was inserted is found by its key. -/
theorem find?_concat {ρ : Type} {key : ρ → String} {rows : List ρ} {row : ρ}
    (h : rows.find? (fun r => key r == key row) = none) :
    (rows ++ [row]).find? (fun r => key r == key row) = some row := by
  rw [List.find?_append, h, Option.none_or]
  exact List.find?_cons_of_pos (beq_self_eq_true (key row))

/-- A statement that has succeeded is one that the store could carry out. -/
theorem exec_of_engine {s : Statement} {a : s.Answer} (h : engine s st = (.ok a, after)) :
    s.exec st = .ok (a, after) := by
  unfold engine at h
  split at h
  · next hexec =>
    cases h
    exact hexec
  · cases h

theorem of_map_ok {inserted : Except Violation Store}
    (h : (inserted.map fun st => ((), st)) = .ok ((), after)) : inserted = .ok after := by
  cases inserted with
  | error v => cases h
  | ok st' =>
    cases h
    rfl

theorem session?_of_insertSession {row : SessionRow}
    (h : engine (.insertSession row) st = (.ok (), after)) : after.session? row.id = some row := by
  obtain ⟨hfree, rfl⟩ := insertSession_ok (of_map_ok (exec_of_engine h))
  exact find?_concat hfree

theorem stage?_of_insertStage {row : StageRow}
    (h : engine (.insertStage row) st = (.ok (), after)) : after.stage? row.id = some row := by
  obtain ⟨hadmits, rfl⟩ := insertStage_ok (of_map_ok (exec_of_engine h))
  simp only [admitsStage, Bool.and_eq_true, Option.isNone_iff_eq_none] at hadmits
  exact find?_concat hadmits.1.2

theorem execution?_of_insertExecution {row : ExecutionRow}
    (h : engine (.insertExecution row) st = (.ok (), after)) :
    after.execution? row.id = some row := by
  obtain ⟨hadmits, rfl⟩ := insertExecution_ok (of_map_ok (exec_of_engine h))
  simp only [admitsExecution, Bool.and_eq_true, Option.isNone_iff_eq_none] at hadmits
  exact find?_concat hadmits.1.1.1.2

end Store

namespace Rows

open Service

variable {st after : Store} {readings readings' : Nat → Instant}

/-- A record whose insertion has succeeded is read back from the row that it left behind. -/
theorem readOne_of_insert {ρ α : Type} {s : Statement} {read : ρ → Except Failure α} {row : ρ}
    {a a' back : α} (find : Store → Option ρ)
    (hfind : ∀ x, Store.engine s st = (.ok x, after) → find after = some row)
    (hread : read row = .ok back)
    (h : alone (bind (α := no_index s.Answer) (ask s) fun _ => pure a) readings st =
      (some (.ok a'), after)) (readings' : Nat → Instant) :
    (readOne read (find after)).alone readings' after = (some (.ok (some back)), after) := by
  rw [alone_ask_bind] at h
  cases hengine : Store.engine s st with
  | mk r st' =>
    rw [hengine] at h
    cases r with
    | error e => cases h
    | ok x =>
      cases h
      rw [hfind x hengine, readOne, mapM_some_ok hread]
      rfl

theorem session?_of_createSession {s s' : Session} (hs : s.EachTime Instant.Storable)
    (h : (createSession s).alone readings st = (some (.ok s'), after)) :
    (session? s.id).alone readings' after = (some (.ok (some (s.map Instant.cut))), after) :=
  readOne_of_insert (·.session? s.id) (fun _ => Store.session?_of_insertSession)
    (Session.read_row hs) h readings'

theorem stage?_of_createStage {s s' : Stage} (hs : s.EachTime Instant.Storable)
    (h : (createStage s).alone readings st = (some (.ok s'), after)) :
    (stage? s.id).alone readings' after = (some (.ok (some (s.map Instant.cut))), after) :=
  readOne_of_insert (·.stage? s.id) (fun _ => Store.stage?_of_insertStage) (Stage.read_row hs) h
    readings'

theorem execution?_of_createExecution {e e' : Execution} (he : e.EachTime Instant.Storable)
    (h : (createExecution e).alone readings st = (some (.ok e'), after)) :
    (execution? e.id).alone readings' after = (some (.ok (some (e.map Instant.cut))), after) :=
  readOne_of_insert (·.execution? e.id) (fun _ => Store.execution?_of_insertExecution)
    (Execution.read_row he) h readings'

end Rows

/-! ### Looks at the store -/

inductive Inquiry where
  | get (id : String)
  | session (id : String)
  | sessions (status : Option SessionStatus) (limit : Nat)
  | orphans (timeout : Nat)
  | stage (id : String)
  | stages (sessionId : String)
  | execution (id : String)
  | topLevel (stageId : String)
  | subAgents (parentId : String)
  | events (sessionId : String)

namespace Inquiry

abbrev Answer : Inquiry → Type
  | .get _ => Session
  | .session _ => Option Session
  | .sessions _ _ | .orphans _ => List Session
  | .stage _ => Option Stage
  | .stages _ => List Stage
  | .execution _ => Option Execution
  | .topLevel _ | .subAgents _ => List Execution
  | .events _ => List Event

def service : (q : Inquiry) → Service q.Answer
  | .get id => Sessions.get id
  | .session id => Rows.session? id
  | .sessions status limit => Rows.sessions status limit
  | .orphans timeout => Orphans.find timeout
  | .stage id => Rows.stage? id
  | .stages sessionId => Rows.stages sessionId
  | .execution id => Rows.execution? id
  | .topLevel stageId => Rows.topLevel stageId
  | .subAgents parentId => Rows.subAgents parentId
  | .events sessionId => Rows.events sessionId

/-- The look finds no session, or is given an age that leads out of range, or comes on an event
whose payload is not to be read. Nothing else can happen to it. -/
def MayFail : Inquiry → Failure → Prop
  | .get id, e => e = .notFound .session id
  | .orphans _, e => e = .validation "timeout" .outOfRange
  | .events _, e => e = .store .badPayload
  | _, _ => False

end Inquiry

namespace Service

variable {ρ α : Type} {read : ρ → Except Failure α} {may : Failure → Prop} {st : Store}

/-- A look at one row fails as the row does. -/
theorem yields_readOne {row : Option ρ} (h : ∀ r, row = some r → ∀ e, read r = .error e → may e) :
    (Rows.readOne read row).Yields st fun answer after =>
      after = st ∧ ∀ e, answer = .error e → may e := by
  refine ⟨rfl, fun e he => ?_⟩
  cases row with
  | none => cases he
  | some r =>
    cases hread : read r with
    | error e' =>
      rw [mapM_some_error hread] at he
      cases he
      exact h r rfl e hread
    | ok a =>
      rw [mapM_some_ok hread] at he
      cases he

theorem mapM_error {rows : List ρ} {e : Failure} (h : rows.mapM read = .error e) :
    ∃ r ∈ rows, read r = .error e := by
  induction rows with
  | nil => cases h
  | cons r rows ih =>
    rw [List.mapM_cons] at h
    cases hread : read r with
    | error e' =>
      rw [hread] at h
      cases h
      exact ⟨r, List.mem_cons_self, hread⟩
    | ok a =>
      rw [hread] at h
      cases hrest : rows.mapM read with
      | error e' =>
        rw [hrest] at h
        cases h
        obtain ⟨r', hr', hread'⟩ := ih hrest
        exact ⟨r', List.mem_cons_of_mem r hr', hread'⟩
      | ok as =>
        rw [hrest] at h
        cases h

/-- A look at a list of rows fails as the first of them does that cannot be read. -/
theorem yields_readAll {rows : List ρ} (h : ∀ r ∈ rows, ∀ e, read r = .error e → may e) :
    (Rows.readAll read rows).Yields st fun answer after =>
      after = st ∧ ∀ e, answer = .error e → may e := by
  refine ⟨rfl, fun e he => ?_⟩
  obtain ⟨r, hr, hread⟩ := mapM_error he
  exact h r hr e hread

end Service

theorem SessionRow.Readable.read_ne {r : SessionRow} (h : r.Readable) (e : Failure) :
    r.read ≠ .error e := by simp [SessionRow.read_eq_ok h]

theorem StageRow.Readable.read_ne {r : StageRow} (h : r.Readable) (e : Failure) :
    r.read ≠ .error e := by simp [StageRow.read_eq_ok h]

theorem ExecutionRow.Readable.read_ne {r : ExecutionRow} (h : r.Readable) (e : Failure) :
    r.read ≠ .error e := by simp [ExecutionRow.read_eq_ok h]

theorem EventRow.read_error {r : EventRow} {e : Failure} (hr : r.createdAt.Readable)
    (h : r.read = .error e) : e = .store .badPayload := by
  unfold EventRow.read at h
  split at h
  · rw [Stamp.read_eq_ok hr] at h
    cases h
  · cases h
    rfl

theorem Statement.AskedBy.events_taken {clock : Instant → Prop} {r : Request} {s : Statement}
    {st : Store} (hs : s.AskedBy clock r) (hst : ∀ e ∈ st.events, e.createdAt.Taken clock) :
    ∀ e ∈ (Store.engine s st).2.events, e.createdAt.Taken clock := by
  intro e he
  rcases Statement.mem_events_engine he with hold | ⟨sessionId, channel, payload, rfl⟩
  · exact hst e hold
  · exact hs.1

/-- The times of events are readings of the clock. -/
theorem Store.Reached.events_taken {clock : Instant → Prop} {st : Store} (h : st.Reached clock) :
    ∀ e ∈ st.events, e.createdAt.Taken clock :=
  h.invariant (I := fun st => ∀ e ∈ st.events, e.createdAt.Taken clock) (by simp)
    fun _ _ _ hs hst => hs.events_taken hst

namespace Inquiry

open Service

/-- Where every row can be read, a look at the store is told of no other trouble. -/
theorem yields {st : Store} (hst : st.Legible) (hevents : ∀ e ∈ st.events, e.createdAt.Readable)
    (q : Inquiry) : q.service.Yields st fun answer after =>
      after = st ∧ ∀ e, answer = .error e → q.MayFail e := by
  have hsession {r : SessionRow} (hr : r ∈ st.sessions) (e : Failure) : r.read ≠ .error e :=
    (hst.sessions r hr).read_ne e
  have hstage {r : StageRow} (hr : r ∈ st.stages) (e : Failure) : r.read ≠ .error e :=
    (hst.stages r hr).read_ne e
  have hexecution {r : ExecutionRow} (hr : r ∈ st.executions) (e : Failure) : r.read ≠ .error e :=
    (hst.executions r hr).read_ne e
  have hsorted {ρ : Type} {r : ρ} {rows : List ρ} {guard : ρ → Bool} {le : ρ → ρ → Bool}
      (hr : r ∈ (rows.filter guard).mergeSort le) : r ∈ rows :=
    (List.mem_filter.mp (List.mem_mergeSort.mp hr)).1
  cases q with
  | get id =>
    simp only [service, Sessions.get, Rows.session?, bind_assoc]
    refine (yields_ask_of_ok (a := st.session? id) rfl).mpr ?_
    refine yields_readOne_bind (fun _ => ?_) (fun r e hr hread => ?_) fun r s _ _ => ?_
    · exact ⟨rfl, fun e he => (Except.error.inj he).symm⟩
    · exact absurd hread (hsession (Store.session?_some hr).1 e)
    · exact ⟨rfl, by simp⟩
  | session id =>
    exact yields_readOne fun r hr e => hsession (Store.session?_some hr).1 e
  | sessions status limit =>
    exact yields_readAll fun r hr e => hsession (hsorted (List.mem_of_mem_take hr)) e
  | orphans timeout =>
    simp only [service, Orphans.find]
    rw [yields_clock_bind]
    intro now
    refine yields_settle_bind (fun cutoff _ => ?_) fun e he => ⟨rfl, fun e' he' => ?_⟩
    · exact yields_readAll fun r hr e hread => absurd hread (hsession (hsorted hr) e)
    · cases he'
      unfold Orphans.cutoff at he
      split at he
      · cases he
      · exact (Except.error.inj he).symm
  | stage id => exact yields_readOne fun r hr e => hstage (Store.stage?_some hr).1 e
  | stages sessionId => exact yields_readAll fun r hr e => hstage (hsorted hr) e
  | execution id => exact yields_readOne fun r hr e => hexecution (Store.execution?_some hr).1 e
  | topLevel stageId => exact yields_readAll fun r hr e => hexecution (hsorted hr) e
  | subAgents parentId => exact yields_readAll fun r hr e => hexecution (hsorted hr) e
  | events sessionId =>
    exact yields_readAll fun r hr e => EventRow.read_error (hevents r (hsorted hr))

end Inquiry

theorem SessionStatus.parse_name (s : SessionStatus) : parse s.name = .ok s := by
  rw [parse, ofName?_name]

theorem StageStatus.parse_name (s : StageStatus) : parse s.name = .ok s := by
  rw [parse, ofName?_name]

/-- Every time in the store can be read, and whoever looks at the store is not told otherwise. -/
structure Store.ReadBack (st : Store) : Prop where
  sessions : ∀ r ∈ st.sessions, r.read = .ok (r.map Stamp.named)
  stages : ∀ r ∈ st.stages, r.read = .ok (r.map Stamp.named)
  executions : ∀ r ∈ st.executions, r.read = .ok (r.map Stamp.named)
  events : ∀ r ∈ st.events, ∀ column, r.createdAt.read column = .ok r.createdAt.named
  inquiries : ∀ (q : Inquiry) (readings : Nat → Instant), ∃ answer,
    q.service.alone readings st = (some answer, st) ∧ ∀ e, answer = .error e → q.MayFail e

theorem Store.Reached.readBack {st : Store} (hst : st.Reached Instant.Storable) : st.ReadBack := by
  have hlegible : st.Legible := hst.legible fun _ ht => ht
  have hevents : ∀ r ∈ st.events, r.createdAt.Readable := fun r hr =>
    (hst.events_taken r hr).readable fun _ ht => ht
  refine ⟨fun r hr => SessionRow.read_eq_ok (hlegible.sessions r hr),
    fun r hr => StageRow.read_eq_ok (hlegible.stages r hr),
    fun r hr => ExecutionRow.read_eq_ok (hlegible.executions r hr),
    fun r hr => Stamp.read_eq_ok (hevents r hr), fun q readings => ?_⟩
  obtain ⟨answer, after, halone, rfl, hfails⟩ :=
    (Inquiry.yields hlegible hevents q).alone readings
  exact ⟨answer, halone, hfails⟩

/-- Nothing is lost in the store but what is finer than a microsecond. -/
structure TimesKept : Prop where
  read : ∀ t : Instant, t.Storable → ∀ column, (Stamp.ofInstant t).read column = .ok t.cut
  cut : ∀ t : Instant, t.Storable → Stamp.ofInstant t.cut = Stamp.ofInstant t
  ordered : ∀ a b : Instant, a.Storable → b.Storable →
    ((Stamp.ofInstant a).bytes < (Stamp.ofInstant b).bytes ↔ a.cut < b.cut)
  early : ∀ a b : Instant, a.date.year < 0 → b.Storable →
    (Stamp.ofInstant a).bytes < (Stamp.ofInstant b).bytes
  sessionStatus : ∀ s : SessionStatus, SessionStatus.parse s.name = .ok s
  stageStatus : ∀ s : StageStatus, StageStatus.parse s.name = .ok s
  reached : ∀ st : Store, st.Reached Instant.Storable → st.ReadBack
  session : ∀ (st after : Store) (readings readings' : Nat → Instant) (s s' : Session),
    s.EachTime Instant.Storable →
    (Rows.createSession s).alone readings st = (some (.ok s'), after) →
    (Rows.session? s.id).alone readings' after = (some (.ok (some (s.map Instant.cut))), after)
  stage : ∀ (st after : Store) (readings readings' : Nat → Instant) (s s' : Stage),
    s.EachTime Instant.Storable →
    (Rows.createStage s).alone readings st = (some (.ok s'), after) →
    (Rows.stage? s.id).alone readings' after = (some (.ok (some (s.map Instant.cut))), after)
  execution : ∀ (st after : Store) (readings readings' : Nat → Instant) (e e' : Execution),
    e.EachTime Instant.Storable →
    (Rows.createExecution e).alone readings st = (some (.ok e'), after) →
    (Rows.execution? e.id).alone readings' after =
      (some (.ok (some (e.map Instant.cut))), after)

/-- Within the years that have four digits, a stored time is read back cut to whole microseconds and
written again as it was, times are in the order of their bytes, and times before these years come
before them; each status is known by its name. So in every store that requests leave behind while
the clock stays within these years, every time can be read, and no look at the store is told
otherwise; and a record that was inserted is found again with its times cut. -/
theorem stored_times_read_back : TimesKept where
  read _ ht column := Stamp.read_ofInstant ht column
  cut t _ := Stamp.ofInstant_cut t
  ordered a b ha hb := by
    rw [Stamp.bytes_lt_iff (Stamp.isAscii_ofInstant a) (Stamp.isAscii_ofInstant b)]
    exact Stamp.ofInstant_lt_iff ha hb
  early a b ha hb := by
    rw [Stamp.bytes_lt_iff (Stamp.isAscii_ofInstant a) (Stamp.isAscii_ofInstant b)]
    exact Stamp.ofInstant_lt_of_year_neg ha hb
  sessionStatus := SessionStatus.parse_name
  stageStatus := StageStatus.parse_name
  reached _ hst := hst.readBack
  session _ _ _ _ _ _ hs := Rows.session?_of_createSession hs
  stage _ _ _ _ _ _ hs := Rows.stage?_of_createStage hs
  execution _ _ _ _ _ _ he := Rows.execution?_of_createExecution he

def alertAt (t : Instant) : Session :=
  { id := "s", alertData := "disk full", alertType := "disk", chainId := "default"
    status := .pending, createdAt := t }

/-- Half a microsecond is lost when an alert is stored and read back. -/
theorem alert_read_back :
    (∃ after, (Rows.createSession (alertAt ⟨1500⟩)).alone (fun _ => ⟨0⟩) {} =
        (some (.ok (alertAt ⟨1500⟩)), after) ∧
      (Rows.session? "s").alone (fun _ => ⟨0⟩) after =
        (some (.ok (some (alertAt ⟨1000⟩))), after)) ∧
    (Stamp.ofInstant ⟨0⟩).bytes < (Stamp.ofInstant ⟨1500⟩).bytes ∧
    (Stamp.ofInstant ⟨-62167219200000000001⟩).bytes < (Stamp.ofInstant ⟨1500⟩).bytes ∧
    ∃ sessions, (Inquiry.sessions none 10).service.alone (fun _ => ⟨0⟩)
      (OneExecution.store .active) = (some (.ok sessions), OneExecution.store .active) := by
  have hkept := stored_times_read_back
  have htimes : (alertAt ⟨1500⟩).EachTime Instant.Storable :=
    ⟨by decide, by simp [alertAt], by simp [alertAt], by simp [alertAt], by simp [alertAt]⟩
  refine ⟨⟨{ sessions := [(alertAt ⟨1500⟩).row] }, rfl, ?_⟩, ?_, ?_, ?_⟩
  · exact hkept.session {} _ (fun _ => ⟨0⟩) _ (alertAt ⟨1500⟩) (alertAt ⟨1500⟩) htimes rfl
  · exact (hkept.ordered ⟨0⟩ ⟨1500⟩ (by decide) (by decide)).mpr (by decide)
  · exact hkept.early ⟨-62167219200000000001⟩ ⟨1500⟩ (by decide) (by decide)
  · have hstore : (OneExecution.store .active).Reached Instant.Storable :=
      OneExecution.reached_store .active (by decide)
    obtain ⟨answer, halone, hfails⟩ :=
      (hkept.reached _ hstore).inquiries (.sessions none 10) fun _ => ⟨0⟩
    cases answer with
    | ok sessions => exact ⟨sessions, halone⟩
    | error e => exact (hfails e rfl).elim

end AlertDesk
