import AlertDesk.Proofs.SessionCalls

/-!
Calls on one session that act as if they were made at once. Between the write of such a call and its
look at the session, the session may have come into the reach of the write: then the call says of a
session that it is what the call asks for, and has done nothing. A session that the call has ended
may be deleted before the call looks at it once more. In all other cases nobody can tell the call
from one that is carried out in a single step.
-/
namespace AlertDesk

/-! ### Sessions that have ended -/

theorem SessionRow.not_live_of_isTerminal {r : SessionRow} (h : r.status.isTerminal = true) :
    r.isLive = false := by
  rw [isLive]
  cases hstatus : r.status <;>
    simp [hstatus, SessionStatus.isLive, SessionStatus.isTerminal] at h ⊢

/-- A session that has ended stays as it is until a sweep deletes it, and then for good. -/
theorem SessionRow.onSession_of_ended {ended r : SessionRow}
    (hended : ended.status.isTerminal = true)
    (hr : r = ended ∨ r.isDeleted = true ∧ r.isLive = false) (s : Statement) :
    s.onSession r = ended ∨ (s.onSession r).isDeleted = true ∧ (s.onSession r).isLive = false := by
  have hrests := not_live_of_isTerminal hended
  have hnot : ¬ ended.isLive = true := Bool.eq_false_iff.mp hrests
  rcases hr with rfl | ⟨hdeleted, hidle⟩
  · apply Statement.onSession_keeps
      (P := fun after => after = r ∨ after.isDeleted = true ∧ after.isLive = false) (.inl rfl)
    intro after hwrites
    cases hwrites with
    | claim id worker now hr =>
      rw [status_of_isClaimable hr] at hended
      cases hended
    | touch id now hr => exact absurd hr hnot
    | advance id stageIndex stageId now hr => exact absurd (isLive_of_isInProgress hr) hnot
    | finish id outcome now hr => exact absurd hr hnot
    | cancel id hr => exact absurd (isLive_of_isInProgress hr) hnot
    | abandon id podId lastSeen now hr =>
      exact absurd (isLive_of_isInProgress (isInProgress_of_isAsSeen hr)) hnot
    | requeue id podId lastSeen hr =>
      exact absurd (isLive_of_isInProgress (isInProgress_of_isAsSeen hr)) hnot
    | delete cutoff now hr => exact .inr ⟨rfl, hrests⟩
  · rw [onSession_of_deleted hdeleted hidle]
    exact .inr ⟨hdeleted, hidle⟩

theorem Pool.session?_chain_of_ended {es : List (Pool.Entry Store)} {st st' : Store}
    (hchain : Chain Store.engine st es st') {id : String} {row : SessionRow}
    (hrow : st.session? id = some row) (hended : row.status.isTerminal = true) :
    ∃ row', st'.session? id = some row' ∧ (row' = row ∨ row'.isDeleted = true) := by
  obtain ⟨row', hrow', hways⟩ := chain_keeps
    (I := fun st => ∃ row', st.session? id = some row' ∧
      (row' = row ∨ row'.isDeleted = true ∧ row'.isLive = false)) hchain
    (fun e _ h => by
      obtain ⟨row', hrow', hways⟩ := h
      exact ⟨_, Store.session?_engine_of_some e.statement hrow',
        SessionRow.onSession_of_ended hended hways e.statement⟩)
    ⟨row, hrow, .inl rfl⟩
  exact ⟨row', hrow', hways.imp_right And.left⟩

/-! ### Calls as if made at once -/

namespace Pool

/-- The moment between these entries is not before the first statement of the call, and not after
the last. -/
def During (i : Nat) (before after : List (Entry Store)) : Prop :=
  own i (before ++ after) = [] ∨
    (own i before = [] → ∃ e, after.head? = some e ∧ e.caller = i) ∧
      (own i after = [] → ∃ e, before.getLast? = some e ∧ e.caller = i)

/-- There is a moment during the call at which it can be made by itself, among the statements that
were carried out for others, and gives this answer and leads to this store in the end. -/
def ActsAtOnce (clock : Instant → Prop) (i : Nat) (x : Service Reply)
    (entries : List (Entry Store)) (a : Except Failure Reply) (st st' : Store) : Prop :=
  ∃ before after mid mid', entries = before ++ after ∧ During i before after ∧
    Chain Store.engine st (others i before) mid ∧ x.Returns clock mid a mid' ∧
    Chain Store.engine mid' (others i after) st'

/-- A heartbeat says that the session is in someone's hands only if it refreshed it, and nobody is
told that a session in progress is not in progress. -/
def NamesTruly (id : String) (entries : List (Entry Store)) :
    Request → Except Failure Reply → Prop
  | .heartbeat _, .ok (.status s) => s.isLive = true → ∃ e ∈ entries,
      (∃ now, e.statement = .touchSession id now) ∧ e.before.sessions.any e.statement.finds = true
  | .progress _ _ _, .error (.progressRefused _ s) => s ≠ .inProgress
  | .cancel _, .error (.notCancellable _ s) => s ≠ .inProgress
  | _, _ => True

/-- When the call looks at the session, this has come into the reach of the write that missed it, or
it is deleted after the write had found it. -/
def Overtaken (id : String) (r : Request) (entries : List (Entry Store)) : Prop :=
  ∃ write look, entries = [write, look] ∧
    (r.reached? id write.before = none ∧ (r.reached? id look.before).isSome = true ∨
      (r.reached? id write.before).isSome = true ∧
        (look.before.session? id).any (·.isDeleted) = true)

section
variable {clock : Instant → Prop} {i : Nat} {x : Service Reply} {a : Except Failure Reply}
  {st st' : Store} {entries before after : List (Entry Store)} {e : Entry Store}

/-- The call can be made at one of its own statements, if its other statements change nothing. -/
theorem actsAtOnce_at (hchain : Chain Store.engine st (before ++ e :: after) st')
    (he : e.caller = i)
    (hbefore : ∀ e ∈ own i before, (Store.engine e.statement e.before).2 = e.before)
    (hafter : ∀ e ∈ own i after, (Store.engine e.statement e.before).2 = e.before)
    (hreturns : x.Returns clock e.before a (Store.engine e.statement e.before).2) :
    ActsAtOnce clock i x (before ++ e :: after) a st st' := by
  obtain ⟨mid, hfirst, rfl, hrest⟩ := chain_append.mp hchain
  have hothers : others i (e :: after) = others i after := by simp [others, he]
  refine ⟨before, e :: after, _, _, rfl, .inr ⟨fun _ => ⟨e, rfl, he⟩, fun hnone => ?_⟩,
    chain_others hfirst hbefore, hreturns, ?_⟩
  · simp [own, he] at hnone
  · rw [hothers]
    exact chain_others hrest hafter

end

section
variable {clock : Instant → Prop} {i : Nat} {r : Request} {id : String} {a : Except Failure Reply}
  {st st' : Store} {entries : List (Entry Store)}

/-- A call that has asked for nothing can be made before all others. -/
theorem actsAtOnce_throw {e : Failure} (hchain : Chain Store.engine st entries st')
    (hnone : own i entries = []) :
    ActsAtOnce clock i (throw e : Service Reply) entries (.error e) st st' := by
  have hothers : others i entries = entries :=
    List.filter_eq_self.mpr fun e he => by
      simpa [own, List.filter_eq_nil_iff] using List.filter_eq_nil_iff.mp hnone e he
  refine ⟨[], entries, st, st, rfl, .inl hnone, rfl, ?_, by rwa [hothers]⟩
  exact Service.returns_throw.mpr ⟨rfl, rfl⟩

/-- A session that a call missed and that it was not overtaken on is missed again when the call
looks at it. -/
theorem reached?_look {write look : Entry Store} (hreached : r.reached? id write.before = none)
    (h : ¬ Overtaken id r [write, look]) : r.reached? id look.before = none := by
  rw [← Option.not_isSome_iff_eq_none]
  exact fun hsome => h ⟨write, look, rfl, .inl ⟨hreached, hsome⟩⟩

theorem actsAtOnce_of_not_overtaken (hid : r.Handles id)
    (hchain : Chain Store.engine st entries st') (hkeyed : ∀ e ∈ entries, e.before.Keyed)
    (hends : r.replying.Ends clock (own i entries) a) (h : ¬ Overtaken id r (own i entries)) :
    ActsAtOnce clock i r.replying entries a st st' := by
  rcases Request.ends_cases hid hends with ⟨hnone, _, e, _, rfl, hthrow⟩ |
    ⟨write, rest, hown, hw, hnext, hagain⟩
  · rw [hthrow]
    exact actsAtOnce_throw hchain hnone
  · obtain ⟨before, after, rfl, hbefore, hcaller, hafter⟩ := split_own hown
    have hst := hkeyed write (by simp)
    rcases Request.ends_next hid (hnext hst) with ⟨rfl, _, hanswer⟩ |
      ⟨look, rfl, hlook, hanswer, hfinish⟩
    · refine actsAtOnce_at hchain hcaller (by simp [hbefore]) (by simp [hafter]) ?_
      exact hagain _ _ _ hst ((Request.returns_next hid).mpr ⟨hanswer _, rfl⟩)
    obtain ⟨between, last, rfl, hbetween, hlooker, hlast⟩ := split_own hafter
    cases hreached : r.reached? id write.before with
    | some found =>
      -- what the call sees after its write is what it wrote, unless a sweep came in between
      refine actsAtOnce_at hchain hcaller (by simp [hbefore])
        (by simpa [hafter] using Request.engine_looksAt hlook) ?_
      obtain ⟨outcome, rfl⟩ := hfinish (by rw [hreached]; rfl)
      have hwritten := Store.session?_engine_of_some write.statement
        (Request.reached?_eq_some.mp hreached).1
      obtain ⟨row, hrow, rfl | hdeleted⟩ := session?_chain_of_ended (chain_between hchain) hwritten
        (hw.ended hreached).1
      · refine hagain _ _ _ hst ((Request.returns_next hid).mpr ⟨?_, rfl⟩)
        rw [hanswer, hrow, hwritten]
      · refine absurd ⟨write, look, hown, .inr ⟨by rw [hreached]; rfl, ?_⟩⟩ h
        rw [hrow]
        exact hdeleted
    | none =>
      -- the call is refused for what it sees, and would be if it were made there
      have hmissed : r.reached? id look.before = none := reached?_look hreached (hown ▸ h)
      have hidle := Request.engine_eq_self (hkeyed look (by simp)) hw hmissed
      have hentries : before ++ write :: (between ++ look :: last) =
          (before ++ write :: between) ++ look :: last := by simp
      have hfirst : own i (before ++ write :: between) = [write] := by
        rw [own, List.filter_append, List.filter_cons_of_pos (by simp [hcaller])]
        exact congrArg₂ (· ++ write :: ·) hbefore hbetween
      rw [hentries] at hchain ⊢
      refine actsAtOnce_at hchain hlooker ?_ (by simp [hlast]) ?_
      · simpa [hfirst] using Request.engine_eq_self hst hw hreached
      · refine hagain _ _ _ (hkeyed look (by simp)) ((Request.returns_next hid).mpr ⟨?_, ?_⟩)
        · rw [hanswer, hreached, hmissed, hidle]
        · rw [Request.engine_looksAt hlook, hidle]

theorem namesTruly_of_not_overtaken (hid : r.Handles id)
    (hkeyed : ∀ e ∈ entries, e.before.Keyed) (hends : r.replying.Ends clock entries a)
    (h : ¬ Overtaken id r entries) : NamesTruly id entries r a := by
  rcases Request.ends_cases hid hends with ⟨_, outcome, e, rfl, rfl, _⟩ |
    ⟨write, rest, rfl, hw, hnext, _⟩
  · trivial
  · have hst := hkeyed write (by simp)
    rcases Request.ends_next hid (hnext hst) with ⟨rfl, hsome, hanswer⟩ |
      ⟨look, rfl, _, hanswer, hfinish⟩
    · obtain ⟨i, w, mid⟩ := write
      obtain ⟨found, hfound⟩ := Option.isSome_iff_exists.mp hsome
      obtain rfl := hanswer none
      rw [hfound]
      have hany : mid.sessions.any w.finds = true := List.any_eq_true.mpr
        ⟨found, (Store.session?_some (Request.reached?_eq_some.mp hfound).1).1,
          hw.finds_reached hfound⟩
      cases hw with
      | @heartbeat now hnow => exact fun _ => ⟨_, List.mem_singleton_self _, ⟨_, rfl⟩, hany⟩
      | progress | cancel => trivial
      | finish => trivial
    · cases hreached : r.reached? id write.before with
      | some found =>
        obtain ⟨outcome, rfl⟩ := hfinish (by rw [hreached]; rfl)
        trivial
      | none =>
        have hmissed : r.reached? id look.before = none := reached?_look hreached h
        rw [hreached] at hanswer
        cases hrow : look.before.session? id with
        | none =>
          rw [hrow] at hanswer
          rw [hanswer]
          cases r <;> trivial
        | some row =>
          rw [hrow] at hanswer
          have haccepts := Request.accepts_eq_false hmissed hrow
          rw [hanswer]
          cases r with
          | heartbeat =>
            intro hlive
            rw [Request.accepts, hlive] at haccepts
            cases haccepts
          | progress | cancel => exact beq_eq_false_iff_ne.mp haccepts
          | _ => trivial

theorem exists_alone (h : ActsAtOnce clock i r.replying entries a st st') (hst : st.Keyed)
    (hkept : st.KeepsSessions)
    (hasked : ∀ e ∈ entries, ∃ clock request, e.statement.AskedBy clock request) :
    ∃ mid mid', mid.Keyed ∧ mid.KeepsSessions ∧ r.replying.Returns clock mid a mid' := by
  obtain ⟨before, after, mid, mid', rfl, _, hchain, hreturns, _⟩ := h
  refine ⟨mid, mid', ?_, ?_, hreturns⟩
  · exact chain_keeps hchain (fun e _ h => Statement.keyed_engine h e.statement) hst
  · refine chain_keeps hchain (fun e he h => ?_) hkept
    obtain ⟨_, _, hs⟩ := hasked e (List.mem_append_left _ (List.mem_filter.mp he).1)
    exact h.engine hs

/-- A call whose write has missed, and which can be made by itself with the same answer, is not
refused for a status for which it is made. -/
theorem accepts_of_missed {write look : Entry Store} {s : SessionStatus} {mid mid' : Store}
    (hid : r.Handles id) (hw : r.Writes clock id write.statement) (hst : write.before.Keyed)
    (hmissed : r.reached? id write.before = none) (hlook : Request.LooksAt id look.statement)
    (hmid : mid.Keyed) (hreturns : r.replying.Returns clock mid (r.refusal id s) mid')
    (hnames : NamesTruly id [write, look] r (r.refusal id s)) : r.accepts s = false := by
  have hrefused {e : Failure} (he : r.refusal id s = .error e) : r.accepts s = false := by
    rw [he] at hreturns
    exact Request.accepts_of_returns hid hmid hreturns he
  cases r with
  | heartbeat =>
    rw [Bool.eq_false_iff]
    intro hlive
    obtain ⟨e, he, ⟨now, hstatement⟩, hany⟩ := hnames hlive
    rcases List.mem_cons.mp he with rfl | he
    · obtain ⟨found, hmem, hfinds⟩ := List.any_eq_true.mp hany
      rw [hw.finds, Bool.and_eq_true, beq_iff_eq] at hfinds
      obtain ⟨rfl, hfinds⟩ := hfinds
      rw [Request.accepts_eq_false hmissed (Store.session?_of_mem hst hmem)] at hfinds
      cases hfinds
    · cases List.mem_singleton.mp he
      rw [hstatement] at hlook
      rcases hlook with hlook | hlook <;> cases hlook
  | progress | finish | cancel => exact hrefused rfl
  | _ => exact hid.elim

/-- A call that has ended a session, and can be made by itself with the same answer, has not seen
the session deleted. -/
theorem isDeleted_of_ended {outcome : Outcome} {found row : SessionRow} {mid mid' : Store}
    (ha : ∀ e, a = .error e → e.isRetryable = false)
    (hanswer : a = (Request.finish id outcome).answer id (some found) (some row))
    (hmid : mid.Keyed) (hkept : mid.KeepsSessions)
    (hreturns : (Request.finish id outcome).replying.Returns clock mid a mid') :
    row.isDeleted = false := by
  rw [Request.answer, Option.elim_some] at hanswer
  cases hread : row.read with
  | error e =>
    rw [hread] at hanswer
    have hstore := SessionRow.read_error hread
    rw [ha e hanswer] at hstore
    cases hstore
  | ok s =>
    rw [hread] at hanswer
    cases hanswer
    have hundeleted := Request.deletedAt_of_returns hmid hkept hreturns
    rw [(SessionRow.read_ok hread).2, SessionOf.map, Option.map_eq_none_iff] at hundeleted
    rw [SessionOf.isDeleted, hundeleted]
    rfl

theorem not_overtaken (hid : r.Handles id) (hkeyed : ∀ e ∈ entries, e.before.Keyed)
    (hends : r.replying.Ends clock entries a) (ha : ∀ e, a = .error e → e.isRetryable = false)
    (halone : ∃ mid mid', mid.Keyed ∧ mid.KeepsSessions ∧ r.replying.Returns clock mid a mid')
    (hnames : NamesTruly id entries r a) : ¬ Overtaken id r entries := by
  intro hovertaken
  obtain ⟨write, look, rfl, hways⟩ := hovertaken
  obtain ⟨mid, mid', hmid, hkept, hreturns⟩ := halone
  rcases Request.ends_cases hid hends with ⟨hnone, _⟩ | ⟨write', rest, hown, hw, hnext, _⟩
  · cases hnone
  cases hown
  have hst := hkeyed write (by simp)
  rcases Request.ends_next hid (hnext hst) with ⟨hnone, _⟩ |
    ⟨look', hlooked, hlook, hanswer, hfinish⟩
  · cases hnone
  cases hlooked
  rcases hways with ⟨hmissed, hsome⟩ | ⟨hsome, hdeleted⟩
  · obtain ⟨row, hreached⟩ := Option.isSome_iff_exists.mp hsome
    obtain ⟨hrow, haccepts⟩ := Request.reached?_eq_some.mp hreached
    rw [hmissed, hrow] at hanswer
    obtain rfl : a = r.refusal id row.status := hanswer
    rw [accepts_of_missed hid hw hst hmissed hlook hmid hreturns hnames] at haccepts
    cases haccepts
  · obtain ⟨outcome, rfl⟩ := hfinish hsome
    obtain ⟨found, hfound⟩ := Option.isSome_iff_exists.mp hsome
    obtain ⟨row, hrow, hdeleted⟩ := (Option.any_eq_true _ _).mp hdeleted
    rw [hfound, hrow] at hanswer
    rw [isDeleted_of_ended ha hanswer hmid hkept hreturns] at hdeleted
    cases hdeleted

theorem keyed_before (hchain : Chain Store.engine st entries st') (hst : st.Keyed) :
    ∀ e ∈ entries, e.before.Keyed := by
  intro e he
  obtain ⟨first, rest, rfl⟩ := List.append_of_mem he
  obtain ⟨mid, hfirst, rfl, _⟩ := chain_append.mp hchain
  exact chain_keeps hfirst (fun e _ h => Statement.keyed_engine h e.statement) hst

end

/-- A call on one session that returns, and not because the store failed, acts as if it were made at
once and names the status truly, unless it is overtaken. -/
theorem session_calls_act_at_once_iff (requests : List Request) (schedule : List (Nat × Instant))
    {i : Nat} {r : Request} {id : String} (hr : requests[i]? = some r) (hid : r.Handles id)
    {a : Except Failure Reply}
    (hreply : reply? i (run Store.engine schedule (Request.replies requests) {}).1 = some a)
    (ha : ∀ e, a = .error e → e.isRetryable = false) :
    let entries := log Store.engine schedule (Request.replies requests) {}
    let final := (run Store.engine schedule (Request.replies requests) {}).2
    (ActsAtOnce (fun now => (i, now) ∈ schedule) i r.replying entries a {} final ∧
        NamesTruly id (own i entries) r a) ↔
      ¬ Overtaken id r (own i entries) := by
  intro entries final
  have hchain : Chain Store.engine {} entries final := chain_log Store.engine schedule _ {}
  have hkeyed := keyed_before hchain balanced_empty.keyed
  have hown : ∀ e ∈ own i entries, e.before.Keyed := fun e he =>
    hkeyed e (List.mem_filter.mp he).1
  have hends := ends_of_reply? hr hreply
  constructor
  · intro h
    obtain ⟨hacts, hnames⟩ := h
    have halone := exists_alone hacts balanced_empty.keyed (by simp [Store.KeepsSessions])
      fun e he => by
        obtain ⟨request, _, hs⟩ := askedBy_of_mem_log he
        exact ⟨_, request, hs⟩
    exact not_overtaken hid hown hends ha halone hnames
  · intro h
    exact ⟨actsAtOnce_of_not_overtaken hid hchain hkeyed hends h,
      namesTruly_of_not_overtaken hid hown hends h⟩

/-! ### A cancel request and a claim -/

def failure? (i : Nat) (p : Pool (Except Failure Reply)) : Option Failure :=
  (reply? i p).bind fun a =>
    match a with
    | .ok _ => none
    | .error e => some e

theorem reply?_of_failure? {i : Nat} {p : Pool (Except Failure Reply)} {e : Failure}
    (h : failure? i p = some e) : reply? i p = some (.error e) := by
  obtain ⟨a, ha, he⟩ := Option.bind_eq_some_iff.mp h
  rw [ha]
  cases a with
  | ok reply => cases he
  | error e' =>
    cases he
    rfl

section
open OneSession

def contest : List Request := [.submit submission "", .cancel "s", .claim "a"]

/-- The session is handed in, the request writes, and `claims` steps of the worker come before the
rest of the request. -/
def contested (claims : Nat) : List (Nat × Instant) :=
  List.replicate 9 (0, ⟨0⟩) ++ [(1, ⟨0⟩)] ++ List.replicate claims (2, ⟨0⟩) ++ [(1, ⟨0⟩)]

/-- The worker has chosen the session but not claimed it, and the request is refused for a status
that the session has all the time. -/
theorem waiting_session_not_cancelled :
    let entries := log Store.engine (contested 1) (Request.replies contest) {}
    let final := (run Store.engine (contested 1) (Request.replies contest) {}).2
    ActsAtOnce (fun now => (1, now) ∈ contested 1) 1 (Request.cancel "s").replying entries
      (.error (.notCancellable "s" .pending)) {} final := by
  have hfailure : failure? 1 (run Store.engine (contested 1) (Request.replies contest) {}).1 =
      some (.notCancellable "s" .pending) := by decide +kernel
  have hmissed : ((own 1 (log Store.engine (contested 1) (Request.replies contest) {})).all
      fun e => ((Request.cancel "s").reached? "s" e.before).isNone) = true := by decide +kernel
  have hid : (Request.cancel "s").Handles "s" := rfl
  refine ((session_calls_act_at_once_iff contest (contested 1) rfl hid
    (reply?_of_failure? hfailure) (by intro e he; cases he; rfl)).mpr ?_).1
  intro hovertaken
  obtain ⟨write, look, hown, hways⟩ := hovertaken
  rw [hown] at hmissed
  simp only [List.all_cons, List.all_nil, Bool.and_true, Bool.and_eq_true,
    Option.isNone_iff_eq_none] at hmissed
  rcases hways with ⟨_, hlook⟩ | ⟨hwrite, _⟩
  · rw [hmissed.2] at hlook
    cases hlook
  · rw [hmissed.1] at hwrite
    cases hwrite

/-- The worker claims the session after the write of the request, which is then refused because the
session is in progress. At no moment is a request refused so that is made at once. -/
theorem claimed_session_not_cancelled :
    ¬ ∀ (requests : List Request) (schedule : List (Nat × Instant)) (i : Nat) (r : Request)
      (id : String) (a : Except Failure Reply), requests[i]? = some r → r.Handles id →
      reply? i (run Store.engine schedule (Request.replies requests) {}).1 = some a →
      (∀ e, a = .error e → e.isRetryable = false) →
        ActsAtOnce (fun now => (i, now) ∈ schedule) i r.replying
          (log Store.engine schedule (Request.replies requests) {}) a {}
          (run Store.engine schedule (Request.replies requests) {}).2 := by
  intro hclaim
  have hfailure : failure? 1 (run Store.engine (contested 9) (Request.replies contest) {}).1 =
      some (.notCancellable "s" .inProgress) := by decide +kernel
  have hid : (Request.cancel "s").Handles "s" := rfl
  have hacts := hclaim contest (contested 9) 1 (.cancel "s") "s" _ rfl hid
    (reply?_of_failure? hfailure) (by intro e he; cases he; rfl)
  obtain ⟨mid, mid', hmid, _, hreturns⟩ := exists_alone hacts balanced_empty.keyed
    (by simp [Store.KeepsSessions]) fun e he => by
      obtain ⟨request, _, hs⟩ := askedBy_of_mem_log he
      exact ⟨_, request, hs⟩
  have haccepts := Request.accepts_of_returns hid hmid hreturns rfl
  cases haccepts

end
end Pool
end AlertDesk
