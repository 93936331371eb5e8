import AlertDesk.Proofs.Lifecycle
import AlertDesk.Proofs.Claims

/-!
Who has a session. A claim that finds its session takes it out of the queue, and only a requeue puts
it back. So the claims of a session exceed its requeues by one exactly while it does not wait, and
whoever claims it next does so after a requeue.
-/
namespace AlertDesk

/-! ### Claims and requeues of a row -/

namespace Statement

def claimsRow : Statement → SessionRow → Bool
  | .claimSession id _ _, r => r.id == id && r.isClaimable
  | _, _ => false

def requeuesRow : Statement → SessionRow → Bool
  | .requeueOrphan id podId lastSeen, r => r.id == id && r.isAsSeen podId lastSeen
  | _, _ => false

def isHandover : Statement → Bool
  | .claimSession _ _ _ | .requeueOrphan _ _ _ => true
  | _ => false

end Statement

namespace SessionRow

def inHand (r : SessionRow) : Nat := if r.status = .pending then 0 else 1

variable {clock : Instant → Prop} {request : Request} {s : Statement}

theorem inHand_of_isLive {r : SessionRow} (h : r.isLive = true) : r.inHand = 1 := by
  have hstatus : r.status ≠ .pending := by
    intro hpending
    simp [isLive, hpending, SessionStatus.isLive] at h
  exact if_neg hstatus

/-- Statements other than claims and requeues leave the session in the queue or out of it. -/
theorem inHand_onSession_of_not_handover (hs : s.AskedBy clock request)
    (hother : s.isHandover = false) (r : SessionRow) : (s.onSession r).inHand = r.inHand := by
  apply Statement.onSession_keeps (P := fun after => after.inHand = r.inHand) rfl
  intro after hwrites
  cases hwrites with
  | claim => cases hother
  | requeue => cases hother
  | touch => rfl
  | advance => rfl
  | delete => rfl
  | finish id outcome now hr =>
    have hended : outcome.status ≠ .pending := by
      intro hpending
      have hterminal := hs.2.1
      rw [hpending] at hterminal
      cases hterminal
    rw [inHand_of_isLive hr]
    exact if_neg hended
  | cancel id hr => rw [inHand_of_isLive (isLive_of_isInProgress hr)]; rfl
  | abandon id podId lastSeen now hr =>
    rw [inHand_of_isLive (isLive_of_isInProgress (isInProgress_of_isAsSeen hr))]
    rfl

/-- A claim takes the session out of the queue and a requeue puts it back. -/
theorem inHand_onSession (hs : s.AskedBy clock request) (r : SessionRow) :
    (s.onSession r).inHand + (if s.requeuesRow r then 1 else 0) =
      r.inHand + if s.claimsRow r then 1 else 0 := by
  cases s with
  | claimSession id worker now =>
    have hrequeues : (Statement.claimSession id worker now).requeuesRow r = false := rfl
    by_cases hguard : (r.id == id && r.isClaimable) = true
    · have hclaims : (Statement.claimSession id worker now).claimsRow r = true := hguard
      have hafter : (Statement.claimSession id worker now).onSession r = r.claimed worker now :=
        if_pos hguard
      have hpending : r.status = .pending := by
        rw [Bool.and_eq_true] at hguard
        exact status_of_isClaimable hguard.2
      simp [hclaims, hrequeues, hafter, inHand, hpending, claimed]
    · have hclaims : (Statement.claimSession id worker now).claimsRow r = false :=
        Bool.eq_false_iff.mpr hguard
      have hafter : (Statement.claimSession id worker now).onSession r = r := if_neg hguard
      simp only [hclaims, hrequeues, hafter]
  | requeueOrphan id podId lastSeen =>
    have hclaims : (Statement.requeueOrphan id podId lastSeen).claimsRow r = false := rfl
    by_cases hguard : (r.id == id && r.isAsSeen podId lastSeen) = true
    · have hrequeues : (Statement.requeueOrphan id podId lastSeen).requeuesRow r = true := hguard
      have hafter : (Statement.requeueOrphan id podId lastSeen).onSession r = r.requeued :=
        if_pos hguard
      have hlive : r.isLive = true := by
        rw [Bool.and_eq_true] at hguard
        exact isLive_of_isInProgress (isInProgress_of_isAsSeen hguard.2)
      have hback : r.requeued.inHand = 0 := rfl
      simp [hclaims, hrequeues, hafter, inHand_of_isLive hlive, hback]
    · have hrequeues : (Statement.requeueOrphan id podId lastSeen).requeuesRow r = false :=
        Bool.eq_false_iff.mpr hguard
      have hafter : (Statement.requeueOrphan id podId lastSeen).onSession r = r := if_neg hguard
      simp only [hclaims, hrequeues, hafter]
  | _ => exact inHand_onSession_of_not_handover hs rfl r

end SessionRow

/-! ### Claims and requeues of a store -/

namespace Store

variable {st : Store}

/-- A guarded change of one session finds one row if it finds any. -/
theorem countP_session (hst : st.Keyed) (id : String) (guard : SessionRow → Bool) :
    (st.sessions.countP fun r => r.id == id && guard r) = 1 ↔
      (st.sessions.any fun r => r.id == id && guard r) = true := by
  have hle : (st.sessions.countP fun r => r.id == id && guard r) ≤ 1 := by
    refine countP_key_le_one hst.sessions (k := id) fun r hr => ?_
    rw [Bool.and_eq_true, beq_iff_eq] at hr
    exact hr.1
  rw [List.any_eq_true, ← List.countP_pos_iff]
  omega

theorem session?_of_mem (hst : st.Keyed) {r : SessionRow} (hr : r ∈ st.sessions) :
    st.session? r.id = some r := find?_key hst.sessions hr rfl

/-- What is true of some session with this id is true of the one there is. -/
theorem any_session (hst : st.Keyed) {id : String} {r : SessionRow} (hr : st.session? id = some r)
    (guard : SessionRow → Bool) : (st.sessions.any fun x => x.id == id && guard x) = guard r := by
  obtain ⟨hmem, hid⟩ := session?_some hr
  rw [Bool.eq_iff_iff, List.any_eq_true]
  constructor
  · intro h
    obtain ⟨x, hx, hguard⟩ := h
    rw [Bool.and_eq_true, beq_iff_eq] at hguard
    have hfound := session?_of_mem hst hx
    rw [hguard.1, hr] at hfound
    cases hfound
    exact hguard.2
  · intro hguard
    exact ⟨r, hmem, by simp [hid, hguard]⟩

theorem any_session_of_none {id : String} (h : st.session? id = none)
    (guard : SessionRow → Bool) : (st.sessions.any fun x => x.id == id && guard x) = false := by
  rw [List.any_eq_false]
  intro x hx
  have hid : ¬ (x.id == id) = true := List.find?_eq_none.mp h x hx
  simp [hid]

/-- A session that comes is the one that the statement inserts. -/
theorem session?_engine_of_none {s : Statement} {id : String} {r : SessionRow}
    (h : st.session? id = none) (hr : (engine s st).2.session? id = some r) :
    s = .insertSession r := by
  rw [session?] at h hr
  rw [Statement.engine_sessions, List.find?_append, List.find?_map] at hr
  simp only [Function.comp_def, Statement.id_onSession, h, Option.map_none, Option.none_or] at hr
  exact Statement.of_mem_newSessions (List.mem_of_find?_eq_some hr)

def inHand (st : Store) (id : String) : Nat := (st.session? id).elim 0 (·.inHand)

end Store

namespace Pool.Entry

def claims (id : String) (e : Entry Store) : Bool :=
  e.before.sessions.any fun r => r.id == id && e.statement.claimsRow r

def requeues (id : String) (e : Entry Store) : Bool :=
  e.before.sessions.any fun r => r.id == id && e.statement.requeuesRow r

def wins (e : Entry Store) : Bool := e.before.sessions.any e.statement.claimsRow

theorem wins_of_claims {id : String} {e : Entry Store} (h : e.claims id = true) :
    e.wins = true := by
  obtain ⟨r, hr, hclaims⟩ := List.any_eq_true.mp h
  rw [Bool.and_eq_true] at hclaims
  exact List.any_eq_true.mpr ⟨r, hr, hclaims.2⟩

variable {st : Store} {i : Nat} {id : String}

/-- A claim has found its session when it answers one row, and a worker goes by that. -/
theorem claims_iff_answer (hst : st.Keyed) {worker : String} {now : Stamp} :
    claims id ⟨i, .claimSession id worker now, st⟩ = true ↔
      (Store.engine (.claimSession id worker now) st).1 = .ok (1 : Nat) := by
  have hguard (r : SessionRow) :
      (r.id == id && (Statement.claimSession id worker now).claimsRow r) =
        (r.id == id && r.isClaimable) := Bool.and_self_left ..
  simp only [claims, hguard, ← Store.countP_session hst]
  simp only [Store.engine, Statement.exec, Store.changeSessions, Except.ok.injEq]

theorem requeues_iff_answer (hst : st.Keyed) {podId : Option String} {lastSeen : Option Stamp} :
    requeues id ⟨i, .requeueOrphan id podId lastSeen, st⟩ = true ↔
      (Store.engine (.requeueOrphan id podId lastSeen) st).1 = .ok (1 : Nat) := by
  have hguard (r : SessionRow) :
      (r.id == id && (Statement.requeueOrphan id podId lastSeen).requeuesRow r) =
        (r.id == id && r.isAsSeen podId lastSeen) := Bool.and_self_left ..
  simp only [requeues, hguard, ← Store.countP_session hst]
  simp only [Store.engine, Statement.exec, Store.changeSessions, Except.ok.injEq]

/-- A claim is of a session that waits. -/
theorem inHand_of_claims {e : Entry Store} (hst : e.before.Keyed)
    (h : e.claims id = true) : e.before.inHand id = 0 := by
  obtain ⟨r, hr, hclaims⟩ := List.any_eq_true.mp h
  rw [Bool.and_eq_true, beq_iff_eq] at hclaims
  obtain ⟨rfl, hclaims⟩ := hclaims
  have hpending : r.status = .pending := by
    cases hs : e.statement with
    | claimSession =>
      rw [hs, Statement.claimsRow, Bool.and_eq_true] at hclaims
      exact SessionRow.status_of_isClaimable hclaims.2
    | _ =>
      rw [hs] at hclaims
      cases hclaims
  rw [Store.inHand, Store.session?_of_mem hst hr]
  exact if_pos hpending

theorem requeues_eq_false_of_claims {e : Entry Store} (h : e.claims id = true) :
    e.requeues id = false := by
  obtain ⟨r, _, hclaims⟩ := List.any_eq_true.mp h
  rw [Bool.and_eq_true] at hclaims
  cases hs : e.statement with
  | claimSession => simp [requeues, hs, Statement.requeuesRow]
  | _ =>
    rw [hs] at hclaims
    cases hclaims.2

end Pool.Entry

/-- What the statement changes in hand is what it claims and requeues. -/
theorem Store.inHand_engine {clock : Instant → Prop} {request : Request} {st : Store}
    {s : Statement} (hs : s.AskedBy clock request) (hst : st.Keyed) (i : Nat) (id : String) :
    (engine s st).2.inHand id + (if Pool.Entry.requeues id ⟨i, s, st⟩ then 1 else 0) =
      st.inHand id + if Pool.Entry.claims id ⟨i, s, st⟩ then 1 else 0 := by
  cases hrow : st.session? id with
  | some r =>
    have hrequeues : Pool.Entry.requeues id ⟨i, s, st⟩ = s.requeuesRow r :=
      any_session hst hrow s.requeuesRow
    have hclaims : Pool.Entry.claims id ⟨i, s, st⟩ = s.claimsRow r :=
      any_session hst hrow s.claimsRow
    have hbefore : st.inHand id = r.inHand := by simp [inHand, hrow]
    have hafter : (engine s st).2.inHand id = (s.onSession r).inHand := by
      simp [inHand, session?_engine_of_some s hrow]
    simpa only [hrequeues, hclaims, hbefore, hafter] using SessionRow.inHand_onSession hs r
  | none =>
    have hrequeues : Pool.Entry.requeues id ⟨i, s, st⟩ = false :=
      any_session_of_none hrow s.requeuesRow
    have hclaims : Pool.Entry.claims id ⟨i, s, st⟩ = false := any_session_of_none hrow s.claimsRow
    have hbefore : st.inHand id = 0 := by simp [inHand, hrow]
    have hafter : (engine s st).2.inHand id = 0 := by
      cases hnew : (engine s st).2.session? id with
      | none => simp [inHand, hnew]
      | some r =>
        rw [session?_engine_of_none hrow hnew] at hs
        obtain ⟨submission, freshId, t, _, _, _, rfl⟩ := hs
        rw [inHand, hnew]
        rfl
    simp only [hrequeues, hclaims, hbefore, hafter]

/-! ### The claims of one call -/

namespace Call

variable {α β : Type}

def ClaimsNoMore : Call α → Prop
  | .done _ => True
  | .ask s next => (∀ r, s.claimsRow r = false) ∧ ∀ a, (next a).ClaimsNoMore
  | .clock next => ∀ t, (next t).ClaimsNoMore
  | .again => False

/-- Once a claim of the call has found its session, the call claims no more. -/
def ClaimsOnce : Call α → Prop
  | .done _ => True
  | .ask s next => ∀ st : Store, st.Keyed →
      (next (Store.engine s st).1).ClaimsOnce ∧
      (st.sessions.any s.claimsRow = true → (next (Store.engine s st).1).ClaimsNoMore)
  | .clock next => ∀ t, (next t).ClaimsOnce
  | .again => True

theorem ClaimsNoMore.claimsOnce {c : Call α} (hc : c.ClaimsNoMore) : c.ClaimsOnce := by
  induction c with
  | done a => trivial
  | ask s next ih => exact fun st _ => ⟨ih _ (hc.2 _), fun _ => hc.2 _⟩
  | clock next ih => exact fun t => ih t (hc t)
  | again => trivial

theorem claimsNoMore_bind {c : Call α} {f : α → Call β} (hc : c.ClaimsNoMore)
    (hf : ∀ a, (f a).ClaimsNoMore) : (c.bind f).ClaimsNoMore := by
  induction c with
  | done a => exact hf a
  | ask s next ih => exact ⟨hc.1, fun a => ih a (hc.2 a)⟩
  | clock next ih => exact fun t => ih t (hc t)
  | again => exact hc

theorem claimsOnce_bind {c : Call α} {f : α → Call β} (hc : c.ClaimsOnce)
    (hf : ∀ a, (f a).ClaimsNoMore) : (c.bind f).ClaimsOnce := by
  induction c with
  | done a => exact (hf a).claimsOnce
  | ask s next ih =>
    intro st hst
    obtain ⟨hnext, hfound⟩ := hc st hst
    exact ⟨ih _ hnext, fun h => claimsNoMore_bind (hfound h) hf⟩
  | clock next ih => exact fun t => ih t (hc t)
  | again => trivial

/-- A call that claims nothing claims once at most. -/
theorem claimsOnce_of_asks {c : Call α}
    (hc : c.Asks (fun _ => True) fun s => ∀ r, s.claimsRow r = false) : c.ClaimsOnce := by
  induction c with
  | done a => trivial
  | ask s next ih =>
    intro st _
    refine ⟨ih _ (hc.2 _), fun hfound => ?_⟩
    obtain ⟨r, _, hclaims⟩ := List.any_eq_true.mp hfound
    rw [hc.1 r] at hclaims
    cases hclaims
  | clock next ih => exact fun t => ih t (hc t trivial)
  | again => trivial

end Call

namespace Sessions

theorem claimsNoMore_found (id : String) (row : Except Failure (Option SessionRow)) :
    (found id row).ClaimsNoMore := by
  rcases row with e | (_ | row)
  · trivial
  · trivial
  · simp only [found]
    split <;> trivial

theorem claimsOnce_counted (id : String) (rows : Except Failure Nat) :
    (counted id rows).ClaimsOnce := by
  cases rows with
  | error e => trivial
  | ok rows =>
    simp only [counted]
    split
    · trivial
    · have hfound (row : Except Failure (Option SessionRow)) := claimsNoMore_found id row
      exact fun _ _ => ⟨(hfound _).claimsOnce, fun _ => hfound _⟩

/-- A claim that finds its session finds one row, and the worker is content with it. -/
theorem claimsNoMore_counted {st : Store} (hst : st.Keyed) {id worker : String} {now : Stamp}
    (hfound : st.sessions.any (Statement.claimsRow (.claimSession id worker now)) = true) :
    (counted id (Store.engine (.claimSession id worker now) st).1).ClaimsNoMore := by
  have hone : (st.sessions.countP fun r => r.id == id && r.isClaimable) = 1 :=
    (Store.countP_session hst id _).mpr hfound
  have hanswer : (Store.engine (.claimSession id worker now) st).1 = .ok (1 : Nat) := by
    simp only [Store.engine, Statement.exec, Store.changeSessions, hone]
  rw [hanswer]
  exact ⟨fun _ => rfl, fun row => claimsNoMore_found id row⟩

theorem claimsOnce_claimNext (worker : String) : (claimNext worker).run.ClaimsOnce := by
  cases hworker : Text.isBlank worker with
  | true =>
    unfold claimNext
    rw [hworker]
    trivial
  | false =>
    rw [claimNext_run hworker]
    intro st _
    refine ⟨?_, fun hfound => absurd hfound (by simp [Statement.claimsRow])⟩
    generalize (Store.engine .oldestPending st).1 = candidate
    rcases candidate with e | (_ | id)
    · trivial
    · trivial
    · intro now st hst
      exact ⟨claimsOnce_counted id _, fun hfound => claimsNoMore_counted hst hfound⟩

end Sessions

theorem Statement.claimsRow_of_askedBy {clock : Instant → Prop} {request : Request} {s : Statement}
    {r : SessionRow} (hs : s.AskedBy clock request) (h : s.claimsRow r = true) :
    ∃ worker, request = .claim worker := by
  cases s with
  | claimSession id worker now => exact ⟨worker, hs.1⟩
  | _ => cases h

theorem Request.claimsOnce (r : Request) : r.call.ClaimsOnce := by
  by_cases hclaim : ∃ worker, r = .claim worker
  · obtain ⟨worker, rfl⟩ := hclaim
    refine Call.claimsOnce_bind (Sessions.claimsOnce_claimNext worker) fun answer => ?_
    cases answer <;> trivial
  · refine Call.claimsOnce_of_asks (Call.Asks.mono (Request.asks r) fun s hs row => ?_)
    rw [Bool.eq_false_iff]
    intro hclaims
    exact hclaim (Statement.claimsRow_of_askedBy hs hclaims)

/-! ### Runs -/

namespace Pool

/-- The claims of each session that took effect exceed its requeues by what is in hand. -/
structure Balanced (log : List (Entry Store)) (st : Store) : Prop where
  keyed : st.Keyed
  balance : ∀ id, log.countP (·.claims id) = log.countP (·.requeues id) + st.inHand id

theorem Balanced.engine {clock : Instant → Prop} {request : Request} {log : List (Entry Store)}
    {st : Store} {s : Statement} (h : Balanced log st) (hs : s.AskedBy clock request) (i : Nat) :
    Balanced (log ++ [⟨i, s, st⟩]) (Store.engine s st).2 where
  keyed := Statement.keyed_engine h.keyed s
  balance id := by
    have hbefore := h.balance id
    have hstep := Store.inHand_engine hs h.keyed i id
    simp only [List.countP_append, List.countP_singleton]
    omega

variable (requests : List Request) (schedule : List (Nat × Instant))

theorem balanced_empty : Balanced [] ({} : Store) := by
  refine ⟨⟨.nil, .nil, .nil, by simp⟩, fun id => ?_⟩
  rfl

theorem balanced_run : Balanced (log Store.engine schedule (Request.pool requests) {})
    (run Store.engine schedule (Request.pool requests) {}).2 := by
  refine run_keeps schedule (Request.pool requests) ({} : Store) (fun _ _ => trivial)
    (Request.pool_asks requests fun _ _ => True) (I := Balanced) balanced_empty ?_
  intro log i s st hasked h
  obtain ⟨_, _, hs⟩ := hasked
  exact h.engine hs i

/-- The balance held before each statement of the run. -/
theorem balanced_before {first rest : List (Entry Store)} {e : Entry Store}
    (hlog : log Store.engine schedule (Request.pool requests) {} = first ++ e :: rest) :
    Balanced first e.before ∧
      ∃ r, requests[e.caller]? = some r ∧ e.statement.AskedBy (fun _ => True) r := by
  refine run_keeps_before schedule (Request.pool requests) ({} : Store) (fun _ _ => trivial)
    (Request.pool_asks requests fun _ _ => True) (I := Balanced) balanced_empty ?_ hlog
  intro log i s st hasked h
  obtain ⟨_, _, hs⟩ := hasked
  exact h.engine hs i

def won (log : List (Entry Store)) (i : Nat) : Nat := log.countP fun e => e.caller == i && e.wins

theorem won_concat (log : List (Entry Store)) (e : Entry Store) (j : Nat) :
    won (log ++ [e]) j = won log j + if e.caller = j ∧ e.wins = true then 1 else 0 := by
  simp [won, List.countP_append]

structure ClaimsLeft (won : Nat) (f : Flight (Except Failure Unit)) : Prop where
  start : f.call.ClaimsOnce
  rest : f.rest.ClaimsOnce
  spent : 0 < won → f.rest.ClaimsNoMore

structure ClaimingOnce (log : List (Entry Store)) (p : Pool (Except Failure Unit)) (st : Store) :
    Prop where
  keyed : st.Keyed
  once : ∀ i, won log i ≤ 1
  calls : ∀ (i : Nat) (f : Flight (Except Failure Unit)), p[i]? = some f → ClaimsLeft (won log i) f

section
variable {log : List (Entry Store)} {p p' : Pool (Except Failure Unit)} {st st' : Store}
  {i : Nat} {f : Flight (Except Failure Unit)}

/-- A call goes on without a statement. -/
theorem ClaimingOnce.set (h : ClaimingOnce log p st) {f : Flight (Except Failure Unit)}
    (hf : ClaimsLeft (won log i) f) : ClaimingOnce log (p.set i f) st where
  keyed := h.keyed
  once := h.once
  calls j g hg := by
    rcases getElem?_set_cases hg with ⟨rfl, rfl⟩ | ⟨_, hold⟩
    · exact hf
    · exact h.calls j g hold

/-- A statement that is carried out for a call finds its session at most once. -/
theorem ClaimingOnce.ask (h : ClaimingOnce log p st) {s : Statement}
    {next : Except Failure s.Answer → Call (Except Failure Unit)} (hf : p[i]? = some f)
    (hrest : f.rest = .ask s next) :
    ClaimingOnce (log ++ [⟨i, s, st⟩]) (p.set i ⟨f.call, next (Store.engine s st).1⟩)
      (Store.engine s st).2 := by
  obtain ⟨hstart, honce, hspent⟩ := h.calls i f hf
  rw [hrest] at honce hspent
  obtain ⟨hnext, hfound⟩ := honce st h.keyed
  refine ⟨Statement.keyed_engine h.keyed s, fun j => ?_, fun j g hg => ?_⟩
  · by_cases hnew : i = j ∧ Entry.wins ⟨i, s, st⟩ = true
    · obtain ⟨rfl, hwins⟩ := hnew
      have hfirst : won log i = 0 := by
        obtain ⟨r, _, hclaims⟩ := List.any_eq_true.mp hwins
        by_contra hpos
        rw [(hspent (Nat.pos_of_ne_zero hpos)).1 r] at hclaims
        cases hclaims
      rw [won_concat, if_pos ⟨rfl, hwins⟩, hfirst]
    · rw [won_concat, if_neg hnew]
      exact h.once j
  · rcases getElem?_set_cases hg with ⟨rfl, rfl⟩ | ⟨hj, hold⟩
    · refine ⟨hstart, hnext, fun hpos => ?_⟩
      by_cases hwins : Entry.wins ⟨i, s, st⟩ = true
      · exact hfound hwins
      · rw [won_concat, if_neg fun hboth => hwins hboth.2] at hpos
        exact (hspent hpos).2 _
    · rw [won_concat, if_neg fun hboth => hj hboth.1]
      exact h.calls j g hold

theorem ClaimingOnce.moves {now : Instant} {entry : Option (Entry Store)}
    (h : ClaimingOnce log p st) (hmoves : Moves Store.engine now i p st entry p' st') :
    ClaimingOnce (log ++ entry.toList) p' st' := by
  cases hmoves with
  | idle => simpa using h
  | ask f s next hf hrest => exact h.ask hf hrest
  | clock f next hf hrest =>
    obtain ⟨hstart, honce, hspent⟩ := h.calls i f hf
    rw [hrest] at honce hspent
    have hleft : ClaimsLeft (won log i) ⟨f.call, next now⟩ :=
      ⟨hstart, honce now, fun hpos => hspent hpos now⟩
    simpa using h.set hleft
  | again f hf hrest =>
    obtain ⟨hstart, _, hspent⟩ := h.calls i f hf
    rw [hrest] at hspent
    have hleft : ClaimsLeft (won log i) ⟨f.call, f.call⟩ :=
      ⟨hstart, hstart, fun hpos => (hspent hpos).elim⟩
    simpa using h.set hleft

end

theorem claimingOnce_run :
    ClaimingOnce (log Store.engine schedule (Request.pool requests) {})
      (run Store.engine schedule (Request.pool requests) {}).1
      (run Store.engine schedule (Request.pool requests) {}).2 := by
  refine run_induction Store.engine schedule (Request.pool requests) ({} : Store)
    (motive := fun _ log p st => ClaimingOnce log p st) ?_
    fun _ _ _ _ _ _ _ _ _ _ h hmoves => h.moves hmoves
  refine ⟨balanced_empty.keyed, fun _ => Nat.zero_le 1, fun i f hf => ?_⟩
  rw [Request.pool, List.getElem?_map] at hf
  obtain ⟨r, _, rfl⟩ := Option.map_eq_some_iff.mp hf
  exact ⟨r.claimsOnce, r.claimsOnce, fun hpos => by cases hpos⟩

/-- In every run of requests, the claims of a session that took effect exceed its requeues by one
or by none, and by none just while the session waits. Each of these claims is made by a call that
claims for a worker and takes effect once in that call; so between two of them lies a requeue of
the session, and they belong to two calls. -/
theorem sessions_owned_by_one :
    let entries := log Store.engine schedule (Request.pool requests) ({} : Store)
    let st := (run Store.engine schedule (Request.pool requests) ({} : Store)).2
    (∀ r ∈ st.sessions, entries.countP (·.claims r.id) =
      entries.countP (·.requeues r.id) + if r.status = .pending then 0 else 1) ∧
    (∀ e ∈ entries, ∀ id, e.claims id = true →
      (∃ worker, requests[e.caller]? = some (.claim worker)) ∧ won entries e.caller = 1) ∧
    ∀ first middle last e e' id, entries = first ++ e :: middle ++ e' :: last →
      e.claims id = true → e'.claims id = true →
        e.caller ≠ e'.caller ∧ ∃ q ∈ middle, q.requeues id = true := by
  intro entries st
  have hbalanced : Balanced entries st := balanced_run requests schedule
  have honce := (claimingOnce_run requests schedule).once
  have hwon {e : Entry Store} (he : e ∈ entries) {id : String} (hclaims : e.claims id = true) :
      won entries e.caller = 1 := by
    have hpos : 0 < won entries e.caller :=
      List.countP_pos_iff.mpr ⟨e, he, by simp [Entry.wins_of_claims hclaims]⟩
    exact Nat.le_antisymm (honce _) hpos
  refine ⟨fun r hr => ?_, fun e he id hclaims => ⟨?_, hwon he hclaims⟩, ?_⟩
  · have hbalance := hbalanced.balance r.id
    rwa [Store.inHand, Store.session?_of_mem hbalanced.keyed hr] at hbalance
  · obtain ⟨first, rest, hlog⟩ := List.append_of_mem he
    obtain ⟨_, request, hrequest, hs⟩ := balanced_before requests schedule hlog
    obtain ⟨r, _, hrow⟩ := List.any_eq_true.mp (Entry.wins_of_claims hclaims)
    obtain ⟨worker, rfl⟩ := Statement.claimsRow_of_askedBy hs hrow
    exact ⟨worker, hrequest⟩
  · intro first middle last e e' id hlog hclaims hclaims'
    constructor
    · intro hsame
      have htwice : 2 ≤ won entries e.caller := by
        rw [hlog]
        simp only [won, List.countP_append, List.countP_cons, Entry.wins_of_claims hclaims,
          Entry.wins_of_claims hclaims', hsame, beq_self_eq_true, Bool.and_self, if_true]
        omega
      have hle : won entries e.caller ≤ 1 := honce _
      omega
    · have hbefore := (balanced_before requests schedule
        (hlog.trans (List.append_assoc _ _ _))).1
      have hbefore' := (balanced_before requests schedule hlog).1
      have hfirst := hbefore.balance id
      have hsecond := hbefore'.balance id
      rw [Entry.inHand_of_claims hbefore.keyed hclaims] at hfirst
      rw [Entry.inHand_of_claims hbefore'.keyed hclaims', List.countP_append, List.countP_append,
        List.countP_cons, List.countP_cons, if_pos hclaims,
        if_neg (Bool.eq_false_iff.mp (Entry.requeues_eq_false_of_claims hclaims))] at hsecond
      have hpos : 0 < middle.countP (·.requeues id) := by omega
      exact List.countP_pos_iff.mp hpos

end Pool

/-! ### One session with two workers -/

namespace OneSession

def submission : Submission :=
  { id := some "s", alertData := "disk full", alertType := "disk", chainId := "default" }

def observed : Session :=
  { submission.session "" ⟨0⟩ with
    status := .inProgress, podId := some "a", startedAt := some ⟨0⟩, lastInteractionAt := some ⟨0⟩ }

def requests : List Request :=
  [.submit submission "", .claim "a", .recover observed .requeue, .claim "b"]

def schedule : List (Nat × Instant) :=
  (List.range requests.length).flatMap fun i => List.replicate 9 (i, ⟨0⟩)

end OneSession

namespace Pool

section
open OneSession

/-- The second worker has a session that was claimed twice and requeued once. -/
theorem session_claimed_again : ∃ r : SessionRow,
    r ∈ (run Store.engine schedule (Request.pool requests) {}).2.sessions ∧ r.podId = some "b" ∧
      ((log Store.engine schedule
        (Request.pool requests) {}).countP fun e => e.claims r.id) = 2 := by
  have hrow : ((run Store.engine schedule (Request.pool requests) {}).2.sessions.any fun r =>
      r.podId == some "b" && r.status != .pending && ((log Store.engine schedule
        (Request.pool requests) {}).countP fun e => e.requeues r.id) == 1) = true := by
    decide +kernel
  obtain ⟨r, hr, hrow⟩ := List.any_eq_true.mp hrow
  simp only [Bool.and_eq_true, beq_iff_eq, bne_iff_ne] at hrow
  obtain ⟨⟨hpod, hstatus⟩, hrequeues⟩ := hrow
  refine ⟨r, hr, hpod, ?_⟩
  rw [(sessions_owned_by_one requests schedule).1 r hr, hrequeues, if_neg hstatus]

end
end Pool
end AlertDesk
