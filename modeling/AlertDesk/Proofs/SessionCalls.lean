import AlertDesk.Proofs.Replies
import AlertDesk.Proofs.Deletion
import AlertDesk.Proofs.Attempts

/-!
The course of a call on one session. It writes under a guard on the status, and only when its write
did not find the session does it look at the status, to say why; a call that has ended a session
looks at it once more, to show it. So what it answers depends on the session as its write met it and
as it saw it after. A call left alone sees what its write left.
-/
namespace AlertDesk

namespace Store

variable {st : Store}

/-- A guard beside the id is asked of the one session with that id. -/
theorem find?_session (hst : st.Keyed) (id : String) (guard : SessionRow → Bool) :
    (st.sessions.find? fun r => r.id == id && guard r) = (st.session? id).filter guard := by
  cases hr : st.session? id with
  | none =>
    rw [Option.filter_none, List.find?_eq_none]
    intro r hmem
    have hid : ¬ (r.id == id) = true := List.find?_eq_none.mp hr r hmem
    simp [hid]
  | some r =>
    obtain ⟨hmem, hid⟩ := session?_some hr
    cases hguard : guard r with
    | true =>
      rw [Option.filter_some, if_pos hguard]
      cases hfound : st.sessions.find? fun r => r.id == id && guard r with
      | none => exact absurd (List.find?_eq_none.mp hfound r hmem) (by simp [hid, hguard])
      | some r' =>
        have hboth := List.find?_some hfound
        rw [Bool.and_eq_true, beq_iff_eq] at hboth
        have hsame := session?_of_mem hst (List.mem_of_find?_eq_some hfound)
        rw [hboth.1, hr] at hsame
        exact hsame.symm
    | false =>
      rw [Option.filter_some, if_neg (by simp [hguard]), List.find?_eq_none]
      intro r' hmem' hboth
      rw [Bool.and_eq_true, beq_iff_eq] at hboth
      have hsame := session?_of_mem hst hmem'
      rw [hboth.1, hr] at hsame
      cases hsame
      rw [hboth.2] at hguard
      cases hguard

theorem countP_session_eq (hst : st.Keyed) (id : String) (guard : SessionRow → Bool) :
    (st.sessions.countP fun r => r.id == id && guard r) =
      if ((st.session? id).filter guard).isSome then 1 else 0 := by
  have hfound : ((st.session? id).filter guard).isSome = true ↔
      (st.sessions.any fun r => r.id == id && guard r) = true := by
    rw [← find?_session hst, List.find?_isSome, List.any_eq_true]
  simp only [hfound]
  split
  · next hany => exact (countP_session hst id guard).mpr hany
  · next hany =>
    rw [List.countP_eq_zero]
    intro r hr hguard
    exact hany (List.any_eq_true.mpr ⟨r, hr, hguard⟩)

end Store

namespace Request

def Handles (id : String) : Request → Prop
  | .heartbeat id' | .progress id' _ _ | .finish id' _ | .cancel id' => id' = id
  | _ => False

def accepts : Request → SessionStatus → Bool
  | .heartbeat _, s | .finish _ _, s => s.isLive
  | .progress _ _ _, s | .cancel _, s => s == .inProgress
  | _, _ => false

def reached? (id : String) (st : Store) (r : Request) : Option SessionRow :=
  (st.session? id).filter fun row => r.accepts row.status

inductive Writes (clock : Instant → Prop) (id : String) : Request → Statement → Prop
  | heartbeat {now : Instant} (hnow : clock now) :
      Writes clock id (.heartbeat id) (.touchSession id (.ofInstant now))
  | progress {stageIndex : Int} {stageId : String} {now : Instant} (hnow : clock now) :
      Writes clock id (.progress id stageIndex stageId)
        (.advanceSession id stageIndex stageId (.ofInstant now))
  | finish {outcome : Outcome} {now : Instant} (hterminal : outcome.status.isTerminal = true)
      (hnow : clock now) :
      Writes clock id (.finish id outcome) (.endSession id outcome (.ofInstant now))
  | cancel : Writes clock id (.cancel id) (.cancelSession id)

/-- What is answered where the write did not find the session, but a look at it did. -/
def refusal (id : String) (s : SessionStatus) : Request → Except Failure Reply
  | .heartbeat _ => .ok (.status s)
  | .progress _ _ _ => .error (.progressRefused id s)
  | .finish _ outcome => .error (.outcomeRefused id s outcome.status)
  | .cancel _ => .error (.notCancellable id s)
  | _ => .ok .nothing

open Service

def onHit (id : String) (row : SessionRow) : Request → Service Reply
  | .heartbeat _ => return .status row.status
  | .finish _ _ => return .session (← Sessions.get id)
  | _ => return .nothing

def onMiss (id : String) (r : Request) : Service Reply := do
  settle (r.refusal id (← Sessions.status id))

def next (id : String) (st : Store) (r : Request) : Service Reply :=
  match r.reached? id st with
  | some row => r.onHit id row
  | none => r.onMiss id

section
variable {clock : Instant → Prop} {id : String} {r : Request} {w : Statement} {st st' : Store}
  {es : List (Pool.Entry Store)} {a : Except Failure Reply}

theorem Writes.finds (h : r.Writes clock id w) (row : SessionRow) :
    w.finds row = (row.id == id && r.accepts row.status) := by
  cases h <;> rfl

theorem reached?_eq_some {row : SessionRow} :
    r.reached? id st = some row ↔ st.session? id = some row ∧ r.accepts row.status = true :=
  Option.filter_eq_some_iff

theorem accepts_eq_false {row : SessionRow} (hmiss : r.reached? id st = none)
    (hrow : st.session? id = some row) : r.accepts row.status = false := by
  rw [Bool.eq_false_iff]
  intro haccepts
  rw [reached?_eq_some.mpr ⟨hrow, haccepts⟩] at hmiss
  cases hmiss

theorem Writes.finds_reached {row : SessionRow} (hw : r.Writes clock id w)
    (hreached : r.reached? id st = some row) : w.finds row = true := by
  obtain ⟨hrow, haccepts⟩ := reached?_eq_some.mp hreached
  rw [hw.finds, haccepts, (Store.session?_some hrow).2, beq_self_eq_true, Bool.true_and]

/-- A session that the call has ended is one that has ended, and no more deleted than it was. -/
theorem Writes.ended {outcome : Outcome} {row : SessionRow}
    (hw : (Request.finish id outcome).Writes clock id w)
    (hreached : (Request.finish id outcome).reached? id st = some row) :
    (w.onSession row).status.isTerminal = true ∧ (w.onSession row).deletedAt = row.deletedAt := by
  have hfinds := hw.finds_reached hreached
  cases hw with
  | @finish _ now hterminal hnow =>
    have hafter : (Statement.endSession id outcome (.ofInstant now)).onSession row =
        row.ended outcome (.ofInstant now) := if_pos hfinds
    rw [hafter]
    exact ⟨hterminal, rfl⟩

theorem engine_touchSession (hst : st.Keyed) (now : Stamp) :
    (Store.engine (.touchSession id now) st).1 =
      .ok (((heartbeat id).reached? id st).map (·.status)) := by
  have hfound := Store.find?_session hst id (·.isLive)
  change Except.ok ((st.sessions.find? fun row => row.id == id && row.isLive).map (·.status)) = _
  rw [hfound]
  rfl

/-- The other writes answer how many sessions they found: one, or none. -/
theorem countP_reached (hst : st.Keyed) {guard : SessionRow → Bool}
    (hguard : ∀ row, guard row = r.accepts row.status) :
    (st.sessions.countP fun row => row.id == id && guard row) =
      if (r.reached? id st).isSome then 1 else 0 := by
  rw [Store.countP_session_eq hst, funext hguard]
  rfl

theorem engine_advanceSession (hst : st.Keyed) {stageIndex : Int} {stageId : String} (now : Stamp) :
    (Store.engine (.advanceSession id stageIndex stageId now) st).1 =
      .ok (if ((progress id stageIndex stageId).reached? id st).isSome then (1 : Nat) else 0) :=
  congrArg Except.ok (countP_reached hst fun _ => rfl)

theorem engine_endSession (hst : st.Keyed) {outcome : Outcome} (now : Stamp) :
    (Store.engine (.endSession id outcome now) st).1 =
      .ok (if ((finish id outcome).reached? id st).isSome then (1 : Nat) else 0) :=
  congrArg Except.ok (countP_reached hst fun _ => rfl)

theorem engine_cancelSession (hst : st.Keyed) :
    (Store.engine (.cancelSession id) st).1 =
      .ok (if ((cancel id).reached? id st).isSome then (1 : Nat) else 0) :=
  congrArg Except.ok (countP_reached hst fun _ => rfl)

/-- A write that did not find the session changed nothing. -/
theorem engine_eq_self (hst : st.Keyed) (hw : r.Writes clock id w)
    (hmiss : r.reached? id st = none) :
    (Store.engine w st).2 = st := by
  have hnone : ∀ row ∈ st.sessions, ¬ (row.id == id && r.accepts row.status) = true :=
    List.find?_eq_none.mp ((Store.find?_session hst id fun row => r.accepts row.status).trans hmiss)
  have hsame (guard : SessionRow → Bool) (change : SessionRow → SessionRow)
      (hguard : ∀ row, guard row = (row.id == id && r.accepts row.status)) :
      (st.changeSessions guard change).2 = st := by
    rw [Store.changeSessions, Store.changeWhere_eq_self]
    intro row hrow
    rw [hguard]
    exact hnone row hrow
  cases hw with
  | heartbeat => exact hsame _ _ fun _ => rfl
  | progress => exact hsame _ _ fun _ => rfl
  | finish => exact hsame _ _ fun _ => rfl
  | cancel => exact hsame _ _ fun _ => rfl

/-! ### The course of such a call -/

/-- How the request begins: it asks for an end that is none, or it writes, after a look at the clock
where the write is dated, and goes on as its write has met the store. -/
inductive Opens (id : String) (r : Request) : Prop
  | refused (outcome : Outcome) (hr : r = .finish id outcome)
      (h : r.replying = throw (.validation "status" (.notTerminal outcome.status)))
  | writes (w : Statement) (k : w.Answer → Service Reply)
      (h : r.replying = bind (α := no_index w.Answer) (ask w) k)
      (hw : ∀ clock, r.Writes clock id w)
      (hk : ∀ st : Store, st.Keyed → settle (Store.engine w st).1 >>= k = r.next id st)
  | dated (w : Instant → Statement) (k : ∀ now, (w now).Answer → Service Reply)
      (h : r.replying = Service.clock >>= fun now =>
        bind (α := no_index (w now).Answer) (ask (w now)) (k now))
      (hw : ∀ clock now, clock now → r.Writes clock id (w now))
      (hk : ∀ now (st : Store), st.Keyed →
        settle (Store.engine (w now) st).1 >>= k now = r.next id st)

theorem opens (hid : r.Handles id) : r.Opens id := by
  cases r with
  | heartbeat =>
    obtain rfl : _ = id := hid
    refine .dated (fun now => .touchSession _ (.ofInstant now)) _
      (by simp only [replying, Sessions.heartbeat, Rows.touch?, bind_assoc]; rfl)
      (fun _ _ hnow => .heartbeat hnow) fun now st hst => ?_
    rw [engine_touchSession hst, settle_ok, pure_bind, next]
    cases reached? _ st (heartbeat _) with
    | none => rfl
    | some row => rfl
  | progress id' stageIndex stageId =>
    obtain rfl : id' = id := hid
    refine .dated (fun now => .advanceSession id' stageIndex stageId (.ofInstant now)) _
      (by simp only [replying, Sessions.updateProgress, Rows.advance, bind_assoc]; rfl)
      (fun _ _ hnow => .progress hnow) fun now st hst => ?_
    rw [engine_advanceSession hst, settle_ok, pure_bind, next]
    cases reached? id' st (progress id' stageIndex stageId) with
    | none => simp [onMiss, refusal]
    | some row => simp [onHit]
  | finish id' outcome =>
    obtain rfl : id' = id := hid
    cases hterminal : outcome.status.isTerminal with
    | false =>
      refine .refused outcome rfl ?_
      simp [replying, Sessions.setTerminal, hterminal]
    | true =>
      refine .dated (fun now => .endSession id' outcome (.ofInstant now)) _
        (by simp only [replying, Sessions.setTerminal, Rows.endSession, hterminal, bind_assoc,
          Bool.not_true, Bool.false_eq_true, if_false]; rfl)
        (fun _ _ hnow => .finish hterminal hnow) fun now st hst => ?_
      rw [engine_endSession hst, settle_ok, pure_bind, next]
      cases reached? id' st (finish id' outcome) with
      | none => simp [onMiss, refusal]
      | some row => simp [onHit]
  | cancel id' =>
    obtain rfl : id' = id := hid
    refine .writes (.cancelSession id') _
      (by simp only [replying, Sessions.requestCancel, Rows.markCancelling, bind_assoc]; rfl)
      (fun _ => .cancel) fun st hst => ?_
    rw [engine_cancelSession hst, settle_ok, pure_bind, next]
    cases reached? id' st (cancel id') with
    | none => simp [onMiss, refusal]
    | some row => simp [onHit]
  | _ => exact hid.elim

/-- What the call answers, by the session that its write found and the one that it saw after. -/
def answer (id : String) (r : Request) (found seen : Option SessionRow) : Except Failure Reply :=
  match found with
  | none => (seen.map (·.status)).elim (.error (.notFound .session id)) (r.refusal id)
  | some row =>
    match r with
    | .heartbeat _ => .ok (.status row.status)
    | .finish _ _ =>
      (seen.elim (.error (.notFound .session id)) SessionRow.read).map .session
    | _ => .ok .nothing

theorem onMiss_eq : r.onMiss id =
    bind (α := no_index (Option SessionStatus)) (ask (.sessionStatus id)) fun seen =>
      settle (seen.elim (.error (.notFound .session id)) (r.refusal id)) := by
  simp only [onMiss, Sessions.status, Rows.sessionStatus?, bind_assoc]
  congr 1
  funext seen
  cases seen <;> rfl

theorem onHit_finish_eq (row : SessionRow) (outcome : Outcome) :
    (finish id outcome).onHit id row =
      bind (α := no_index (Option SessionRow)) (ask (.findSession id)) fun seen =>
        settle ((seen.elim (.error (.notFound .session id)) SessionRow.read).map .session) := by
  simp only [onHit, Sessions.get, Rows.session?, Rows.readOne, bind_assoc]
  congr 1
  funext seen
  cases seen with
  | none => rfl
  | some row =>
    cases hread : row.read with
    | ok s =>
      rw [mapM_some_ok hread, Option.elim_some, hread]
      rfl
    | error e =>
      rw [mapM_some_error hread, Option.elim_some, hread]
      rfl

theorem returns_next (hid : r.Handles id) {mid : Store} :
    (r.next id st).Returns clock mid a st' ↔
      a = r.answer id (r.reached? id st) (mid.session? id) ∧ st' = mid := by
  rw [next]
  cases hreached : r.reached? id st with
  | none =>
    rw [onMiss_eq, returns_ask_bind]
    exact returns_settle
  | some row =>
    cases r with
    | finish id' outcome =>
      obtain rfl : id' = id := hid
      change Returns clock ((finish id' outcome).onHit id' row) mid a st' ↔ _
      rw [onHit_finish_eq, returns_ask_bind]
      exact returns_settle
    | _ => exact returns_pure

def LooksAt (id : String) (s : Statement) : Prop := s = .sessionStatus id ∨ s = .findSession id

theorem engine_looksAt {s : Statement} (h : LooksAt id s) : (Store.engine s st).2 = st := by
  rcases h with rfl | rfl <;> rfl

/-- After its write the call looks at the session once, or not at all if it found what it asked
for. -/
theorem ends_next (hid : r.Handles id) (h : (r.next id st).Ends clock es a) :
    (es = [] ∧ (r.reached? id st).isSome = true ∧
      ∀ seen, a = r.answer id (r.reached? id st) seen) ∨
    ∃ look, es = [look] ∧ LooksAt id look.statement ∧
      a = r.answer id (r.reached? id st) (look.before.session? id) ∧
      ((r.reached? id st).isSome = true → ∃ outcome, r = .finish id outcome) := by
  rw [next] at h
  cases hreached : r.reached? id st with
  | none =>
    rw [hreached, onMiss_eq, ends_ask_bind] at h
    obtain ⟨i, mid, rest, rfl, h⟩ := h
    obtain ⟨rfl, rfl⟩ := ends_settle.mp h
    exact .inr ⟨_, rfl, .inl rfl, rfl, fun hsome => by cases hsome⟩
  | some row =>
    rw [hreached] at h
    cases r with
    | finish id' outcome =>
      obtain rfl : id' = id := hid
      change Ends clock ((finish id' outcome).onHit id' row) es a at h
      rw [onHit_finish_eq, ends_ask_bind] at h
      obtain ⟨i, mid, rest, rfl, h⟩ := h
      obtain ⟨rfl, rfl⟩ := ends_settle.mp h
      exact .inr ⟨_, rfl, .inr rfl, rfl, fun _ => ⟨outcome, rfl⟩⟩
    | heartbeat | progress | cancel =>
      obtain ⟨rfl, rfl⟩ := ends_pure.mp h
      exact .inl ⟨rfl, rfl, fun _ => rfl⟩
    | _ => exact hid.elim

/-- The call is refused at once, or it writes and goes on from the store that its write met; and so
it goes on wherever that write is its first statement. -/
theorem ends_cases (hid : r.Handles id) (h : r.replying.Ends clock es a) :
    (es = [] ∧ ∃ outcome e, r = .finish id outcome ∧ a = .error e ∧ r.replying = throw e) ∨
    ∃ write rest, es = write :: rest ∧ r.Writes clock id write.statement ∧
      (write.before.Keyed → (r.next id write.before).Ends clock rest a) ∧
      ∀ st a st', st.Keyed →
        (r.next id st).Returns clock (Store.engine write.statement st).2 a st' →
        r.replying.Returns clock st a st' := by
  cases opens hid with
  | refused outcome hr hthrow =>
    rw [hthrow] at h
    obtain ⟨rfl, rfl⟩ := ends_throw.mp h
    exact .inl ⟨rfl, outcome, _, hr, rfl, hthrow⟩
  | writes w k hask hw hk =>
    rw [hask, ends_ask_bind] at h
    obtain ⟨i, st, rest, rfl, h⟩ := h
    refine .inr ⟨_, rest, rfl, hw clock, fun hst => ?_, fun st a st' hst hnext => ?_⟩
    · rwa [hk st hst] at h
    · rwa [hask, returns_ask_bind, hk st hst]
  | dated w k hask hw hk =>
    rw [hask, ends_clock_bind] at h
    obtain ⟨now, hnow, h⟩ := h
    rw [ends_ask_bind] at h
    obtain ⟨i, st, rest, rfl, h⟩ := h
    refine .inr ⟨_, rest, rfl, hw clock now hnow, fun hst => ?_, fun st a st' hst hnext => ?_⟩
    · rwa [hk now st hst] at h
    · rw [hask, returns_clock_bind]
      refine ⟨now, hnow, ?_⟩
      rwa [returns_ask_bind, hk now st hst]

/-- Left alone, the call is refused at once, or it answers by what its write has found and left. -/
theorem returns_cases (hid : r.Handles id) (hst : st.Keyed)
    (h : r.replying.Returns clock st a st') :
    (∃ outcome, r = .finish id outcome ∧
      a = .error (.validation "status" (.notTerminal outcome.status))) ∨
    ∃ w, r.Writes clock id w ∧
      a = r.answer id (r.reached? id st) ((Store.engine w st).2.session? id) := by
  cases opens hid with
  | refused outcome hr hthrow =>
    rw [hthrow, returns_throw] at h
    exact .inl ⟨outcome, hr, h.1⟩
  | writes w k hask hw hk =>
    rw [hask, returns_ask_bind, hk st hst, returns_next hid] at h
    exact .inr ⟨w, hw clock, h.1⟩
  | dated w k hask hw hk =>
    rw [hask, returns_clock_bind] at h
    obtain ⟨now, hnow, h⟩ := h
    rw [returns_ask_bind, hk now st hst, returns_next hid] at h
    exact .inr ⟨w now, hw clock now hnow, h.1⟩

/-- A refusal is neither a failure of the store nor that there is no such session. -/
theorem refusal_error {s : SessionStatus} {e : Failure} (h : r.refusal id s = .error e) :
    e.isRetryable = false ∧ e ≠ .notFound .session id := by
  cases r <;> cases h <;> exact ⟨rfl, by simp⟩

theorem refusal_names {s s' : SessionStatus} {e : Failure} (h : r.refusal id s = .error e)
    (h' : r.refusal id s' = .error e) : s = s' := by
  cases r <;> cases h <;> cases h' <;> rfl

/-- A call whose write has found the session can only fail when it looks at it after. -/
theorem answer_error {found : SessionRow} {seen : Option SessionRow} {e : Failure}
    (h : r.answer id (some found) seen = .error e) :
    e.isRetryable = true ∨ e = .notFound .session id := by
  cases r with
  | finish =>
    cases seen with
    | none =>
      cases h
      exact .inr rfl
    | some row =>
      cases hread : row.read with
      | error e' =>
        rw [answer, Option.elim_some, hread] at h
        cases h
        exact .inl (SessionRow.read_error hread)
      | ok s =>
        rw [answer, Option.elim_some, hread] at h
        cases h
  | _ => cases h

/-- Left alone, the call is not refused for a status for which it is made. -/
theorem accepts_of_returns (hid : r.Handles id) (hst : st.Keyed) {s : SessionStatus} {e : Failure}
    (h : r.replying.Returns clock st (.error e) st') (he : r.refusal id s = .error e) :
    r.accepts s = false := by
  obtain ⟨hretry, hfound⟩ := refusal_error he
  rcases returns_cases hid hst h with ⟨outcome, rfl, hthrown⟩ | ⟨w, hw, hanswer⟩
  · cases hthrown
    cases he
  · cases hreached : r.reached? id st with
    | none =>
      rw [engine_eq_self hst hw hreached, hreached] at hanswer
      cases hrow : st.session? id with
      | none =>
        rw [hrow] at hanswer
        exact absurd (Except.error.inj hanswer) hfound
      | some row =>
        rw [hrow] at hanswer
        rw [refusal_names he hanswer.symm]
        exact accepts_eq_false hreached hrow
    | some row =>
      rw [hreached] at hanswer
      rcases answer_error hanswer.symm with hstore | hnone
      · rw [hretry] at hstore
        cases hstore
      · exact absurd hnone hfound

/-- Left alone, a call that ends a session shows it undeleted. -/
theorem deletedAt_of_returns {outcome : Outcome} {s : Session} (hst : st.Keyed)
    (hkept : st.KeepsSessions)
    (h : (finish id outcome).replying.Returns clock st (.ok (.session s)) st') :
    s.deletedAt = none := by
  have hid : (finish id outcome).Handles id := rfl
  rcases returns_cases hid hst h with ⟨_, _, hthrown⟩ | ⟨w, hw, hanswer⟩
  · cases hthrown
  · cases hreached : (finish id outcome).reached? id st with
    | none =>
      rw [hreached, answer] at hanswer
      cases hrow : (Store.engine w st).2.session? id with
      | none =>
        rw [hrow] at hanswer
        cases hanswer
      | some row =>
        rw [hrow] at hanswer
        cases hanswer
    | some row =>
      obtain ⟨hrow, hlive⟩ := reached?_eq_some.mp hreached
      rw [hreached, Store.session?_engine_of_some w hrow, answer, Option.elim_some] at hanswer
      cases hread : (w.onSession row).read with
      | error e =>
        rw [hread] at hanswer
        cases hanswer
      | ok s' =>
        rw [hread] at hanswer
        cases hanswer
        have hundeleted := (hkept row (Store.session?_some hrow).1).undeleted hlive
        rw [(SessionRow.read_ok hread).2, SessionOf.map, (hw.ended hreached).2, hundeleted]
        rfl

end
end Request
end AlertDesk
