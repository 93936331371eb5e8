import AlertDesk.Proofs.Replies
import AlertDesk.Proofs.Deletion

/-!
Orphans as they were observed. A recovery changes a session only if its worker and its last sign of
life are those of an earlier reading. Where each sign of life is left at a time of its own, this
says that nothing at all has happened to the session since it was read: what changes it leaves
another sign, or takes it out of its worker's hands for good or until it is claimed anew.
-/
namespace AlertDesk

/-! ### Times that were written are written again as they were -/

namespace Stamp

theorem ofInstant_named {s : Stamp} {clock : Instant → Prop} (hs : s.Taken clock)
    (h : s.Readable) : ofInstant s.named = s := by
  obtain ⟨t, _, rfl⟩ := hs
  have hnamed : (ofInstant t).named = ⟨t.nanos / 1000 * 1000⟩ := by
    rw [named, instant?_ofInstant (storable_of_readable h), Option.getD_some]
  rw [hnamed, ofInstant_cut]

theorem map_ofInstant_named {clock : Instant → Prop} {o : Option Stamp}
    (htaken : ∀ s ∈ o, s.Taken clock) (h : ∀ s ∈ o, s.Readable) :
    (o.map named).map ofInstant = o := by
  cases o with
  | none => rfl
  | some s => exact congrArg some (ofInstant_named (htaken s rfl) (h s rfl))

end Stamp

namespace SessionRow

structure Timed (clock : Instant → Prop) (r : SessionRow) : Prop where
  createdAt : r.createdAt.Taken clock
  startedAt : ∀ s ∈ r.startedAt, s.Taken clock
  lastInteractionAt : ∀ s ∈ r.lastInteractionAt, s.Taken clock
  completedAt : ∀ s ∈ r.completedAt, s.Taken clock
  deletedAt : ∀ s ∈ r.deletedAt, s.Taken clock

section
variable {clock : Instant → Prop} {r : SessionRow}

theorem Timed.onSession {s : Statement} {request : Request} (h : r.Timed clock)
    (hs : s.AskedBy clock request) : (s.onSession r).Timed clock := by
  have hnone : ∀ t ∈ (none : Option Stamp), t.Taken clock := by simp
  have hsome {now : Stamp} (hnow : now.Taken clock) : ∀ t ∈ some now, t.Taken clock := by
    simpa using hnow
  apply Statement.onSession_keeps h
  intro after hwrites
  cases hwrites with
  | claim => exact { h with startedAt := hsome hs.2.2, lastInteractionAt := hsome hs.2.2 }
  | touch => exact { h with lastInteractionAt := hsome hs.2 }
  | advance => exact { h with lastInteractionAt := hsome hs.2 }
  | finish => exact { h with lastInteractionAt := hsome hs.2.2, completedAt := hsome hs.2.2 }
  | cancel => exact { h with }
  | abandon => exact { h with completedAt := hsome hs.1 }
  | requeue => exact { h with startedAt := hnone, lastInteractionAt := hnone }
  | delete =>
    obtain ⟨_, t, _, ht, rfl, _⟩ := hs
    exact { h with deletedAt := hsome ⟨t, ht, rfl⟩ }

/-- A record that was read from a row is stored as that row. -/
theorem row_of_read {observed : Session} (hr : r.Timed clock) (h : r.read = .ok observed) :
    observed.row = r := by
  obtain ⟨hreadable, rfl⟩ := read_ok h
  simp only [Session.row, SessionOf.map, Stamp.ofInstant_named hr.createdAt hreadable.createdAt,
    Stamp.map_ofInstant_named hr.startedAt hreadable.startedAt,
    Stamp.map_ofInstant_named hr.lastInteractionAt hreadable.lastInteractionAt,
    Stamp.map_ofInstant_named hr.completedAt hreadable.completedAt,
    Stamp.map_ofInstant_named hr.deletedAt hreadable.deletedAt]

end
end SessionRow

/-! ### Signs of life -/

def Statement.sign? : Statement → Option (String × Stamp)
  | .claimSession id _ now | .touchSession id now | .advanceSession id _ _ now
  | .endSession id _ now => some (id, now)
  | _ => none

namespace SessionRow

variable {clock : Instant → Prop} {request : Request} {s : Statement} {r : SessionRow} {l : Stamp}

/-- The last sign of life is an earlier one, or one that the statement leaves. -/
theorem lastInteractionAt_onSession (h : (s.onSession r).lastInteractionAt = some l) :
    r.lastInteractionAt = some l ∨ s.finds r = true ∧ s.sign? = some (r.id, l) := by
  cases hfinds : s.finds r with
  | false =>
    rw [Statement.onSession_of_not_finds hfinds] at h
    exact .inl h
  | true =>
    have hwrites := Statement.writesSession_of_finds hfinds
    generalize s.onSession r = after at h hwrites
    have hsign {id : String} {now : Stamp} {guard : Bool} (hguard : (r.id == id && guard) = true)
        (hnow : some now = some l) : some (id, now) = some (r.id, l) := by
      rw [Bool.and_eq_true, beq_iff_eq] at hguard
      rw [hguard.1, Option.some.inj hnow]
    cases hwrites with
    | claim id worker now => exact .inr ⟨rfl, hsign hfinds h⟩
    | touch id now => exact .inr ⟨rfl, hsign hfinds h⟩
    | advance id stageIndex stageId now => exact .inr ⟨rfl, hsign hfinds h⟩
    | finish id outcome now => exact .inr ⟨rfl, hsign hfinds h⟩
    | cancel => exact .inl h
    | abandon => exact .inl h
    | delete => exact .inl h
    | requeue => cases h

/-- The session shows another sign of life, or its worker was asked to stop or has done with it. -/
def Gone (l : Stamp) (r : SessionRow) : Prop :=
  r.lastInteractionAt ≠ some l ∨ r.status = .cancelling ∨ r.status.isTerminal = true

theorem Gone.isAsSeen_eq_false (h : r.Gone l) (podId : Option String) :
    r.isAsSeen podId (some l) = false := by
  rw [Bool.eq_false_iff]
  intro hseen
  have hstatus := status_of_isInProgress (isInProgress_of_isAsSeen hseen)
  simp only [isAsSeen, Bool.and_eq_true, beq_iff_eq] at hseen
  rcases h with hsign | hcancelling | hended
  · exact hsign hseen.2
  · rw [hstatus] at hcancelling
    cases hcancelling
  · rw [hstatus] at hended
    cases hended

/-- As long as the sign is not left once more, a session does not come back to it. -/
theorem Gone.onSession (hs : s.AskedBy clock request)
    (hsign : s.finds r = true → s.sign? ≠ some (r.id, l)) (h : r.Gone l) :
    (s.onSession r).Gone l := by
  rcases h with hother | hpast
  · refine .inl fun hlast => ?_
    rcases lastInteractionAt_onSession hlast with hsame | ⟨hfinds, hleft⟩
    · exact hother hsame
    · exact hsign hfinds hleft
  · refine .inr (Statement.onSession_keeps
      (P := fun after => after.status = .cancelling ∨ after.status.isTerminal = true) hpast ?_)
    have hactive (hstatus : r.status = .pending ∨ r.status = .inProgress) : False := by
      rcases hpast with h | h <;> rcases hstatus with hstatus | hstatus <;> rw [hstatus] at h <;>
        cases h
    intro after hwrites
    cases hwrites with
    | claim id worker now hr => exact (hactive (.inl (status_of_isClaimable hr))).elim
    | touch => exact hpast
    | advance id stageIndex stageId now hr =>
      exact (hactive (.inr (status_of_isInProgress hr))).elim
    | finish => exact .inr hs.2.1
    | cancel id hr => exact (hactive (.inr (status_of_isInProgress hr))).elim
    | abandon => exact .inr rfl
    | requeue id podId lastSeen hr =>
      exact (hactive (.inr (status_of_isInProgress (isInProgress_of_isAsSeen hr)))).elim
    | delete => exact hpast

/-- What changes a session leaves another sign, or takes it out of its worker's hands. -/
theorem gone_of_changed (hkept : r.Kept)
    (hsign : s.finds r = true → s.sign? ≠ some (r.id, l)) (hchanged : s.onSession r ≠ r) :
    (s.onSession r).Gone l := by
  cases hfinds : s.finds r with
  | false => exact absurd (Statement.onSession_of_not_finds hfinds) hchanged
  | true =>
    have hother := hsign hfinds
    have hwrites := Statement.writesSession_of_finds hfinds
    generalize s.onSession r = after at hwrites
    have hleft {id : String} {now : Stamp} {guard : Bool} (hguard : (r.id == id && guard) = true)
        (hne : some (id, now) ≠ some (r.id, l)) : some now ≠ some l := by
      rw [Bool.and_eq_true, beq_iff_eq] at hguard
      intro hnow
      exact hne (by rw [hguard.1, Option.some.inj hnow])
    cases hwrites with
    | claim id worker now => exact .inl (hleft hfinds hother)
    | touch id now => exact .inl (hleft hfinds hother)
    | advance id stageIndex stageId now => exact .inl (hleft hfinds hother)
    | finish id outcome now => exact .inl (hleft hfinds hother)
    | cancel => exact .inr (.inl rfl)
    | abandon => exact .inr (.inr rfl)
    | requeue => exact .inl (by simp [requeued])
    | delete cutoff now hr =>
      rcases pending_or_terminal_of_not_live (hkept.not_live_of_isExpired hr) with hpending | hended
      · obtain ⟨_, _, _, hfollows⟩ := hkept.follows
        have hnone := (hfollows.pending hpending).2.lastInteractionAt
        exact .inl (by simp [deleted, hnone])
      · exact .inr (.inr hended)

end SessionRow

namespace Pool

namespace Entry

def sign? (e : Entry Store) : Option (String × Stamp) :=
  if e.before.sessions.any e.statement.finds then e.statement.sign? else none

theorem sign?_of_finds {e : Entry Store} {r : SessionRow} (hr : r ∈ e.before.sessions)
    (hfinds : e.statement.finds r = true) : e.sign? = e.statement.sign? :=
  if_pos (List.any_eq_true.mpr ⟨r, hr, hfinds⟩)

def Leaves (id : String) (e : Entry Store) : Prop :=
  (Store.engine e.statement e.before).2.session? id = e.before.session? id

theorem leaves_iff {e : Entry Store} {id : String} {r : SessionRow}
    (hr : e.before.session? id = some r) : e.Leaves id ↔ e.statement.onSession r = r := by
  rw [Leaves, Store.session?_engine_of_some e.statement hr, hr, Option.some.injEq]

end Entry

/-- What is known at any point of a run about the signs of life that the sessions show. -/
structure Signed (log : List (Entry Store)) (st : Store) : Prop where
  keyed : st.Keyed
  kept : st.KeepsSessions
  timed : ∀ r ∈ st.sessions, r.Timed fun _ => True
  signs : ∀ r ∈ st.sessions, ∀ l, r.lastInteractionAt = some l → (r.id, l) ∈ log.filterMap (·.sign?)

theorem Signed.engine {request : Request} {log : List (Entry Store)} {st : Store} {s : Statement}
    (h : Signed log st) (hs : s.AskedBy (fun _ => True) request) (i : Nat) :
    Signed (log ++ [⟨i, s, st⟩]) (Store.engine s st).2 where
  keyed := Statement.keyed_engine h.keyed s
  kept := h.kept.engine hs
  timed := by
    intro r hr
    rw [Statement.engine_sessions] at hr
    rcases List.mem_append.mp hr with hold | hnew
    · obtain ⟨before, hbefore, rfl⟩ := List.mem_map.mp hold
      exact (h.timed before hbefore).onSession hs
    · rw [Statement.of_mem_newSessions hnew] at hs
      obtain ⟨submission, freshId, now, _, _, _, rfl⟩ := hs
      exact ⟨⟨now, trivial, rfl⟩, nofun, nofun, nofun, nofun⟩
  signs := by
    intro r hr l hlast
    rw [List.filterMap_append, List.mem_append]
    rw [Statement.engine_sessions] at hr
    rcases List.mem_append.mp hr with hold | hnew
    · obtain ⟨before, hbefore, rfl⟩ := List.mem_map.mp hold
      rw [Statement.id_onSession]
      rcases SessionRow.lastInteractionAt_onSession hlast with hsame | ⟨hfinds, hsign⟩
      · exact .inl (h.signs before hbefore l hsame)
      · refine .inr (List.mem_filterMap.mpr ⟨_, List.mem_singleton_self _, ?_⟩)
        rw [Entry.sign?_of_finds hbefore hfinds, hsign]
    · rw [Statement.of_mem_newSessions hnew] at hs
      obtain ⟨submission, freshId, now, _, _, _, rfl⟩ := hs
      cases hlast

section
variable (requests : List Request) (schedule : List (Nat × Instant))

theorem signed_before {first rest : List (Entry Store)} {e : Entry Store}
    (hlog : log Store.engine schedule (Request.replies requests) {} = first ++ e :: rest) :
    Signed first e.before ∧
      ∃ r, requests[e.caller]? = some r ∧ e.statement.AskedBy (fun _ => True) r := by
  rw [← log_replies] at hlog
  refine run_keeps_before schedule (Request.pool requests) ({} : Store) (fun _ _ => trivial)
    (Request.pool_asks requests fun _ _ => True) (I := Signed) ?_ ?_ hlog
  · exact ⟨balanced_empty.keyed, by simp [Store.KeepsSessions], by simp, by simp⟩
  · intro log i s st hasked h
    obtain ⟨_, _, hs⟩ := hasked
    exact h.engine hs i

/-- What holds at an entry, and at each of those that come before it and after another one. -/
theorem signed_between {before between last : List (Entry Store)} {seen found : Entry Store}
    (hlog : log Store.engine schedule (Request.replies requests) {} =
      before ++ seen :: (between ++ found :: last)) :
    Signed (before ++ seen :: between) found.before ∧
      ∀ e ∈ between, e.before.KeepsSessions ∧
        ∃ request, e.statement.AskedBy (fun _ => True) request := by
  constructor
  · have hlog : log Store.engine schedule (Request.replies requests) {} =
        (before ++ seen :: between) ++ found :: last := by
      rw [hlog, List.append_assoc, List.cons_append]
    exact (signed_before requests schedule hlog).1
  · intro e he
    obtain ⟨x, y, rfl⟩ := List.append_of_mem he
    have hlog : log Store.engine schedule (Request.replies requests) {} =
        (before ++ seen :: x) ++ e :: (y ++ found :: last) := by
      rw [hlog, List.append_assoc, List.append_assoc, List.cons_append, List.cons_append]
    obtain ⟨hst, request, _, hs⟩ := signed_before requests schedule hlog
    exact ⟨hst.kept, request, hs⟩

end

section
variable {es : List (Entry Store)} {st st' : Store} {id : String} {l : Stamp} {r : SessionRow}

theorem gone_chain (hchain : Chain Store.engine st es st')
    (hasked : ∀ e ∈ es, ∃ request, e.statement.AskedBy (fun _ => True) request)
    (hsigns : ∀ e ∈ es, e.sign? ≠ some (id, l)) (hr : st.session? id = some r) (hgone : r.Gone l) :
    ∃ r', st'.session? id = some r' ∧ r'.Gone l := by
  refine chain_keeps hchain (I := fun st => ∃ r', st.session? id = some r' ∧ r'.Gone l)
    (fun e he h => ?_) ⟨r, hr, hgone⟩
  obtain ⟨r', hr', hgone'⟩ := h
  obtain ⟨_, hs⟩ := hasked e he
  obtain ⟨hmem, rfl⟩ := Store.session?_some hr'
  refine ⟨_, Store.session?_engine_of_some e.statement hr', hgone'.onSession hs fun hfinds => ?_⟩
  rw [← Entry.sign?_of_finds hmem hfinds]
  exact hsigns e he

theorem session?_of_leaves (hchain : Chain Store.engine st es st') (h : ∀ e ∈ es, e.Leaves id) :
    st'.session? id = st.session? id :=
  chain_keeps hchain (I := fun st' => st'.session? id = st.session? id)
    (fun e he hsame => (h e he).trans hsame) rfl

theorem isSome_session?_chain (hchain : Chain Store.engine st es st')
    (h : (st.session? id).isSome = true) : (st'.session? id).isSome = true :=
  chain_keeps hchain (I := fun st => (st.session? id).isSome = true)
    (fun e _ => Statement.isSome_session?_engine e.statement) h

/-- Either nothing happened to the session, or the sign it showed is gone. -/
theorem unchanged_or_gone (hchain : Chain Store.engine st es st')
    (hasked : ∀ e ∈ es, ∃ request, e.statement.AskedBy (fun _ => True) request)
    (hkept : ∀ e ∈ es, e.before.KeepsSessions) (hsigns : ∀ e ∈ es, e.sign? ≠ some (id, l))
    (hr : st.session? id = some r) :
    ∃ r', st'.session? id = some r' ∧ ((∀ e ∈ es, e.Leaves id) ∧ r' = r ∨ r'.Gone l) := by
  induction es generalizing st with
  | nil =>
    obtain rfl : st' = st := hchain
    exact ⟨r, hr, .inl ⟨by simp, rfl⟩⟩
  | cons e es ih =>
    obtain ⟨rfl, hrest⟩ := hchain
    have hstep := Store.session?_engine_of_some e.statement hr
    obtain ⟨⟨_, hs⟩, haskedRest⟩ := List.forall_mem_cons.mp hasked
    obtain ⟨hsign, hsignsRest⟩ := List.forall_mem_cons.mp hsigns
    by_cases hsame : e.statement.onSession r = r
    · obtain ⟨r', hr', hways⟩ := ih hrest haskedRest
        (fun e' he' => hkept e' (List.mem_cons_of_mem _ he')) hsignsRest (hsame ▸ hstep)
      refine ⟨r', hr', hways.imp_left fun h => ⟨?_, h.2⟩⟩
      exact List.forall_mem_cons.mpr ⟨(Entry.leaves_iff hr).mpr hsame, h.1⟩
    · obtain ⟨hmem, rfl⟩ := Store.session?_some hr
      have hgone := SessionRow.gone_of_changed (l := l)
        (hkept e (List.mem_cons_self ..) r hmem)
        (fun hfinds => by rwa [← Entry.sign?_of_finds hmem hfinds]) hsame
      obtain ⟨r', hr', hgone'⟩ := gone_chain hrest haskedRest hsignsRest hstep hgone
      exact ⟨r', hr', .inr hgone'⟩

end
end Pool

/-! ### Recoveries -/

/-- What a recovery of this session asks. To report it asks nothing. -/
def OrphanAction.Asks (observed : Session) : OrphanAction → Statement → Prop
  | .report, _ => False
  | .fail, s => ∃ now, s = .failOrphan observed.id observed.podId
      (observed.lastInteractionAt.map Stamp.ofInstant) (.ofInstant now)
  | .requeue, s => s = .requeueOrphan observed.id observed.podId
      (observed.lastInteractionAt.map Stamp.ofInstant)

def Statement.shown : (s : Statement) → s.Answer → List SessionRow
  | .findSession _, row => row.toList
  | .findStale _, rows => rows
  | _, _ => []

section
variable {clock : Instant → Prop} {observed : Session} {action : OrphanAction} {s : Statement}
  {es : List (Pool.Entry Store)}

theorem OrphanAction.Asks.finds (h : action.Asks observed s) (r : SessionRow) :
    s.finds r = (r.id == observed.row.id && r.isAsSeen observed.row.podId
      observed.row.lastInteractionAt) := by
  cases action with
  | report => exact h.elim
  | fail =>
    obtain ⟨now, rfl⟩ := h
    rfl
  | requeue =>
    obtain rfl : s = _ := h
    rfl

/-- A recovery takes the session out of its worker's hands. -/
theorem OrphanAction.Asks.onSession_ne (h : action.Asks observed s) {r : SessionRow}
    (hr : s.finds r = true) : s.onSession r ≠ r := by
  have hstatus : r.status = .inProgress := by
    rw [h.finds, Bool.and_eq_true] at hr
    exact SessionRow.status_of_isInProgress (SessionRow.isInProgress_of_isAsSeen hr.2)
  have hwrites := Statement.writesSession_of_finds hr
  have hafter : (s.onSession r).status ≠ .inProgress := by
    generalize s.onSession r = after at hwrites
    cases action with
    | report => exact h.elim
    | fail =>
      obtain ⟨now, rfl⟩ := h
      cases hwrites
      simp [SessionRow.abandoned]
    | requeue =>
      obtain rfl : s = _ := h
      cases hwrites
      simp [SessionRow.requeued]
  intro hsame
  rw [hsame] at hafter
  exact hafter hstatus

open Service in
/-- A recovery asks one statement, and answers whether it found one session. -/
theorem Orphans.recover_ends {answer : Except Failure Reply} (haction : action ≠ .report)
    (h : (Request.recover observed action).replying.Ends clock es answer) :
    ∃ e, es = [e] ∧ action.Asks observed e.statement ∧
      answer = .ok (.recovered (e.before.sessions.countP e.statement.finds == 1)) := by
  simp only [Request.replying, recover, Rows.recover, ends_clock_bind, bind_assoc] at h
  obtain ⟨now, _, h⟩ := h
  cases action with
  | report => exact absurd rfl haction
  | fail =>
    simp only [bind_assoc, pure_bind, ends_ask_bind] at h
    obtain ⟨i, st, rest, rfl, h⟩ := h
    obtain ⟨hrest, hanswer⟩ := ends_pure.mp h
    exact ⟨⟨i, _, st⟩, by rw [hrest], ⟨now, rfl⟩, hanswer⟩
  | requeue =>
    simp only [bind_assoc, pure_bind, ends_ask_bind] at h
    obtain ⟨i, st, rest, rfl, h⟩ := h
    obtain ⟨hrest, hanswer⟩ := ends_pure.mp h
    exact ⟨⟨i, _, st⟩, by rw [hrest], rfl, hanswer⟩

end

namespace Pool

def Entry.Shows (observed : Session) (e : Entry Store) : Prop :=
  ∃ (answer : e.statement.Answer) (row : SessionRow),
    (Store.engine e.statement e.before).1 = .ok answer ∧ row ∈ e.statement.shown answer ∧
      row.read = .ok observed

/-- What is shown is a session that there is, and showing it changes nothing. -/
theorem Entry.Shows.session? {observed : Session} {e : Entry Store} {log : List (Entry Store)}
    (h : e.Shows observed) (hst : Signed log e.before) :
    e.before.session? observed.id = some observed.row ∧
      (Store.engine e.statement e.before).2 = e.before := by
  obtain ⟨answer, row, hanswer, hrow, hread⟩ := h
  have hthere : row ∈ e.before.sessions ∧
      (Store.engine e.statement e.before).2 = e.before := by
    obtain ⟨i, s, st⟩ := e
    cases s with
    | findSession id =>
      cases hanswer
      exact ⟨List.mem_of_find?_eq_some (Option.mem_toList.mp hrow), rfl⟩
    | findStale cutoff =>
      cases hanswer
      have hmem := (List.mergeSort_perm _ _).mem_iff.mp hrow
      exact ⟨(List.mem_filter.mp hmem).1, rfl⟩
    | _ => cases hrow
  have hsame := SessionRow.row_of_read (hst.timed row hthere.1) hread
  have hid : observed.id = row.id := congrArg SessionOf.id hsame
  rw [hid, Store.session?_of_mem hst.keyed hthere.1, hsame]
  exact ⟨rfl, hthere.2⟩

/-- A recovery finds its session just if that is still as it was seen. -/
theorem recovery_finds {observed : Session} {action : OrphanAction} {e : Entry Store}
    (hst : e.before.Keyed) (hasks : action.Asks observed e.statement) {r : SessionRow}
    (hr : e.before.session? observed.id = some r) :
    ((e.before.sessions.countP e.statement.finds == 1) =
        r.isAsSeen observed.row.podId observed.row.lastInteractionAt) ∧
      (e.Leaves observed.id ↔
        r.isAsSeen observed.row.podId observed.row.lastInteractionAt = false) := by
  have hid : observed.row.id = observed.id := rfl
  have hfound : e.statement.finds r =
      r.isAsSeen observed.row.podId observed.row.lastInteractionAt := by
    rw [hasks.finds, hid, (Store.session?_some hr).2, beq_self_eq_true, Bool.true_and]
  constructor
  · rw [funext hasks.finds, hid, Bool.eq_iff_iff, beq_iff_eq, Store.countP_session hst,
      Store.any_session hst hr]
  · rw [Entry.leaves_iff hr, ← hfound]
    constructor
    · intro hsame
      rw [Bool.eq_false_iff]
      exact fun hfinds => hasks.onSession_ne hfinds hsame
    · exact Statement.onSession_of_not_finds

/-- A session in progress shows a sign of life. -/
theorem exists_sign {r : SessionRow} (hkept : r.Kept) (hr : r.status = .inProgress) :
    ∃ l, r.lastInteractionAt = some l := by
  obtain ⟨_, _, _, hfollows⟩ := hkept.follows
  exact Option.isSome_iff_exists.mp (hfollows.live (by rw [hr]; rfl)).lastInteractionAt

/-- After these statements the session looks as it was seen, just if it was seen in progress and
each of them left it as it was. -/
theorem asSeen_iff {seen : SessionRow} {es : List (Entry Store)} {st st' : Store}
    (hchain : Chain Store.engine st es st')
    (hasked : ∀ e ∈ es, ∃ request, e.statement.AskedBy (fun _ => True) request)
    (hkept : ∀ e ∈ es, e.before.KeepsSessions) (hst : st.KeepsSessions) (hst' : st'.KeepsSessions)
    (hsigns : ∀ l, seen.lastInteractionAt = some l → ∀ e ∈ es, e.sign? ≠ some (seen.id, l))
    (hseen : st.session? seen.id = some seen) :
    ∃ r, st'.session? seen.id = some r ∧
      (r.isAsSeen seen.podId seen.lastInteractionAt = true ↔
        seen.status = .inProgress ∧ ∀ e ∈ es, e.Leaves seen.id) ∧
      (r.isAsSeen seen.podId seen.lastInteractionAt = true → r = seen) := by
  have hunchanged {r : SessionRow} (hr : st'.session? seen.id = some r)
      (hleaves : ∀ e ∈ es, e.Leaves seen.id) : r = seen := by
    rw [session?_of_leaves hchain hleaves, hseen] at hr
    exact (Option.some.inj hr).symm
  have hself (hstatus : seen.status = .inProgress) :
      seen.isAsSeen seen.podId seen.lastInteractionAt = true := by
    simp [SessionRow.isAsSeen, SessionRow.isInProgress, hstatus]
  cases hlast : seen.lastInteractionAt with
  | none =>
    -- such a session was not in progress, and one that is in progress does not look like it
    obtain ⟨r, hr⟩ : ∃ r, st'.session? seen.id = some r :=
      Option.isSome_iff_exists.mp (isSome_session?_chain hchain (by rw [hseen]; rfl))
    have hother : ¬ r.isAsSeen seen.podId none = true := by
      intro h
      have hstatus := SessionRow.status_of_isInProgress (SessionRow.isInProgress_of_isAsSeen h)
      obtain ⟨l, hl⟩ := exists_sign (hst' r (Store.session?_some hr).1) hstatus
      simp [SessionRow.isAsSeen, hl] at h
    refine ⟨r, hr, iff_of_false hother fun h => ?_, fun h => absurd h hother⟩
    obtain ⟨l, hl⟩ := exists_sign (hst seen (Store.session?_some hseen).1) h.1
    rw [hlast] at hl
    cases hl
  | some l =>
    obtain ⟨r, hr, hways⟩ := unchanged_or_gone hchain hasked hkept (hsigns l hlast) hseen
    refine ⟨r, hr, ?_⟩
    rcases hways with ⟨hleaves, rfl⟩ | hgone
    · refine ⟨⟨fun h => ⟨?_, hleaves⟩, fun h => hlast ▸ hself h.1⟩, fun _ => rfl⟩
      exact SessionRow.status_of_isInProgress (SessionRow.isInProgress_of_isAsSeen h)
    · have hother := Bool.eq_false_iff.mp (hgone.isAsSeen_eq_false seen.podId)
      refine ⟨iff_of_false hother fun h => hother ?_, fun h => absurd h hother⟩
      rw [hunchanged hr h.2, ← hlast]
      exact hself h.1

/-- In a run in which no two signs of life are left on a session at one time, the recovery of a
session changes it just if it was seen in progress and no statement has changed it since; then it is
in every column as it was seen. Otherwise the recovery answers so and leaves the session alone. -/
theorem recovery_compares_and_swaps (requests : List Request) (schedule : List (Nat × Instant))
    (hsigns : ((log Store.engine schedule (Request.replies requests) {}).filterMap
      (·.sign?)).Nodup)
    {i : Nat} {observed : Session} {action : OrphanAction}
    (hr : requests[i]? = some (.recover observed action)) (haction : action ≠ .report)
    {answer : Except Failure Reply}
    (hreply : reply? i (run Store.engine schedule (Request.replies requests) {}).1 =
      some answer) :
    ∃ changed recovery, answer = .ok (.recovered changed) ∧
      own i (log Store.engine schedule (Request.replies requests) {}) = [recovery] ∧
      ∀ before seen between last, log Store.engine schedule (Request.replies requests) {} =
          before ++ seen :: (between ++ recovery :: last) → seen.Shows observed →
        (changed = true ↔
          observed.status = .inProgress ∧ ∀ e ∈ between, e.Leaves observed.id) ∧
        (changed = true → recovery.before.session? observed.id = some observed.row) ∧
        (changed = false ↔ recovery.Leaves observed.id) := by
  obtain ⟨recovery, hown, hasks, hanswer⟩ :=
    Orphans.recover_ends haction (ends_of_reply? hr hreply)
  refine ⟨_, recovery, hanswer, hown, ?_⟩
  intro before seen between last hlog hshows
  have hthen := (signed_before requests schedule hlog).1
  obtain ⟨hnow, hbetween⟩ := signed_between requests schedule hlog
  obtain ⟨hseen, hidle⟩ := hshows.session? hthen
  have hfresh : ∀ l, observed.row.lastInteractionAt = some l →
      ∀ e ∈ between, e.sign? ≠ some (observed.row.id, l) := by
    intro l hl e he hsign
    have hleft := hthen.signs observed.row (Store.session?_some hseen).1 l hl
    rw [hlog, List.filterMap_append] at hsigns
    refine (List.nodup_append.mp hsigns).2.2 _ hleft _ (List.mem_filterMap.mpr ⟨e, ?_, hsign⟩) rfl
    exact List.mem_cons_of_mem _ (List.mem_append_left _ he)
  have hchain : Chain Store.engine seen.before between recovery.before := by
    have hall := chain_log Store.engine schedule (Request.replies requests) ({} : Store)
    rw [hlog] at hall
    have hbetween := chain_between hall
    rwa [hidle] at hbetween
  obtain ⟨r, hrow, hiff, hsame⟩ := asSeen_iff hchain (fun e he => (hbetween e he).2)
    (fun e he => (hbetween e he).1) hthen.kept hnow.kept hfresh hseen
  obtain ⟨hcount, hleaves⟩ := recovery_finds hnow.keyed hasks hrow
  rw [hleaves, hcount]
  exact ⟨hiff, fun h => hsame h ▸ hrow, Iff.rfl⟩

/-! ### A session that is found silent -/

section
open OneSession

def abandonment : List Request :=
  [.submit submission "", .claim "a", .get "s", .recover observed .fail]

/-- The recovery came right after a reading that showed the session, and has been answered. -/
def isAbandoned : Bool :=
  match (log Store.engine schedule (Request.replies abandonment) {}).reverse with
  | recovery :: seen :: _ => recovery.caller == 3 && seen.statement == .findSession "s" &&
      (seen.before.session? "s").any (fun row => decide (row.read = .ok observed)) &&
      (reply? 3 (run Store.engine schedule (Request.replies abandonment) {}).1).isSome
  | _ => false

/-- Nothing comes between the reading and the recovery, which finds the session as it was seen. -/
theorem seen_session_recovered : ∃ recovery : Entry Store, recovery.caller = 3 ∧
    recovery.before.session? "s" = some observed.row ∧ ¬ recovery.Leaves "s" := by
  have hrun : isAbandoned = true := by decide +kernel
  have hsigns : ((log Store.engine schedule (Request.replies abandonment) {}).filterMap
      (·.sign?)).Nodup := by decide +kernel
  unfold isAbandoned at hrun
  split at hrun
  · next last seen earlier hlog =>
    simp only [Bool.and_eq_true, beq_iff_eq, Option.any_eq_true, decide_eq_true_eq] at hrun
    obtain ⟨⟨⟨hcaller, hstatement⟩, row, hrow, hread⟩, hreplied⟩ := hrun
    obtain ⟨answer, hanswer⟩ := Option.isSome_iff_exists.mp hreplied
    have hsplit : log Store.engine schedule (Request.replies abandonment) {} =
        earlier.reverse ++ seen :: ([] ++ last :: []) := by
      simpa using congrArg List.reverse hlog
    have hshows : seen.Shows observed := by
      obtain ⟨i, s, st⟩ := seen
      obtain rfl : s = .findSession "s" := hstatement
      exact ⟨some row, row, congrArg Except.ok hrow, List.mem_singleton_self _, hread⟩
    obtain ⟨changed, recovery, _, hown, hrecovery⟩ :=
      recovery_compares_and_swaps abandonment schedule hsigns rfl (by decide) hanswer
    obtain rfl : last = recovery := by
      have hlast : last ∈ own 3 (log Store.engine schedule (Request.replies abandonment) {}) := by
        rw [hsplit]
        exact List.mem_filter.mpr ⟨by simp, by simp [hcaller]⟩
      rw [hown] at hlast
      exact List.mem_singleton.mp hlast
    obtain ⟨hiff, hsame, hleaves⟩ := hrecovery _ _ _ _ hsplit hshows
    have hchanged : changed = true := hiff.mpr ⟨rfl, by simp⟩
    refine ⟨last, hcaller, hsame hchanged, fun hleft => ?_⟩
    rw [hleaves.mpr hleft] at hchanged
    cases hchanged
  · cases hrun

end
end Pool
end AlertDesk
