import AlertDesk.Proofs.Deletion
import AlertDesk.Proofs.Replies
import AlertDesk.Proofs.Turns
import Mathlib.Data.Nat.Count

/-!
Races for the next session. A worker selects the first session of the queue and claims it under a
guard, with no lock in between, and starts over when it comes too late. It comes too late only if
another call has taken its candidate out of the queue since, by a claim or a sweep. No two of its
lost races are lost to one statement, so the rounds it makes are bounded by the statements that take
a candidate from it.
-/
namespace AlertDesk

/-! ### The queue and what is taken from it -/

namespace Store

variable {st : Store} {id : String}

def waits (st : Store) (id : String) : Bool := st.sessions.any fun r => r.id == id && r.isClaimable

def next? (st : Store) : Option String :=
  (SessionRow.first? (st.sessions.filter (·.isClaimable))).map (·.id)

theorem waits_of_next? (h : st.next? = some id) : st.waits id = true := by
  obtain ⟨r, hfirst, rfl⟩ := Option.map_eq_some_iff.mp h
  obtain ⟨hmem, hclaimable⟩ := List.mem_filter.mp (SessionRow.first?_spec hfirst).1
  exact List.any_eq_true.mpr ⟨r, hmem, by simp [hclaimable]⟩

theorem next?_eq_none_iff : st.next? = none ↔ ∀ r ∈ st.sessions, r.isClaimable = false := by
  rw [next?, Option.map_eq_none_iff]
  constructor
  · intro h r hr
    have hnone := List.filter_eq_nil_iff.mp (SessionRow.first?_eq_none h) r hr
    exact Bool.eq_false_iff.mpr hnone
  · intro h
    have hnone : st.sessions.filter (·.isClaimable) = [] :=
      List.filter_eq_nil_iff.mpr fun r hr => Bool.eq_false_iff.mp (h r hr)
    rw [hnone]
    rfl

theorem engine_claimSession_of_not_waits (h : st.waits id = false) (worker : String) (now : Stamp) :
    (engine (.claimSession id worker now) st).1 = .ok (0 : Nat) := by
  have hnone : (st.sessions.countP fun r => r.id == id && r.isClaimable) = 0 :=
    List.countP_eq_zero.mpr (List.any_eq_false.mp h)
  simp only [engine, Statement.exec, changeSessions, hnone]

/-- A worker goes by the answer of its claim: it reads the session that it found, or starts over. -/
theorem counted_claimSession (hst : st.Keyed) (worker : String) (now : Stamp) :
    Sessions.counted id (engine (.claimSession id worker now) st).1 =
      if st.waits id then .ask (.findSession id) (Sessions.found id) else .again := by
  have hone : (st.sessions.countP fun r => r.id == id && r.isClaimable) = 1 ↔ st.waits id = true :=
    countP_session hst id (·.isClaimable)
  simp only [engine, Statement.exec, changeSessions, Sessions.counted]
  by_cases hwaits : st.waits id = true
  · rw [if_pos hwaits, hone.mpr hwaits]
    rfl
  · rw [if_neg hwaits, if_pos (bne_iff_ne.mpr (mt hone.mp hwaits))]

end Store

namespace Pool

namespace Entry

def isSelection (e : Entry Store) : Bool := e.statement == .oldestPending

def selected? (e : Entry Store) : Option String := if e.isSelection then e.before.next? else none

def loses (e : Entry Store) : Bool :=
  match e.statement with
  | .claimSession id _ _ => !e.before.waits id
  | _ => false

def takes (id : String) (e : Entry Store) : Bool :=
  e.before.waits id && !(Store.engine e.statement e.before).2.waits id

/-- Only claims and sweeps take sessions out of the queue. -/
theorem claim_or_sweep_of_takes {id : String} {e : Entry Store} (hst : e.before.Keyed)
    (h : e.takes id = true) : (∃ worker now, e.statement = .claimSession id worker now) ∨
      ∃ cutoff now, e.statement = .deleteExpired cutoff now := by
  rw [takes, Bool.and_eq_true, Bool.not_eq_true'] at h
  obtain ⟨hwaits, hgone⟩ := h
  obtain ⟨r, hr, hboth⟩ := List.any_eq_true.mp hwaits
  rw [Bool.and_eq_true, beq_iff_eq] at hboth
  obtain ⟨rfl, hclaimable⟩ := hboth
  have hafter := Store.session?_engine_of_some e.statement (Store.session?_of_mem hst hr)
  rw [Store.waits, Store.any_session (Statement.keyed_engine hst e.statement) hafter] at hgone
  have hpending := SessionRow.status_of_isClaimable hclaimable
  have hrests : r.isLive = false := by
    rw [SessionRow.isLive, hpending]
    rfl
  cases hfinds : e.statement.finds r with
  | false =>
    rw [Statement.onSession_of_not_finds hfinds, hclaimable] at hgone
    cases hgone
  | true =>
    have hwrites := Statement.writesSession_of_finds hfinds
    generalize e.statement.onSession r = after at hwrites
    generalize e.statement = s at hwrites hfinds
    cases hwrites with
    | claim id worker now =>
      obtain ⟨hid, _⟩ := Bool.and_eq_true_iff.mp hfinds
      exact .inl ⟨worker, now, by rw [beq_iff_eq.mp hid]⟩
    | delete cutoff now => exact .inr ⟨cutoff, now, rfl⟩
    | touch id now hr | finish id outcome now hr => simp [hrests] at hr
    | advance id stageIndex stageId now hr | cancel id hr =>
      simp [SessionRow.isLive_of_isInProgress hr] at hrests
    | abandon id podId lastSeen now hr | requeue id podId lastSeen hr =>
      have hlive := SessionRow.isLive_of_isInProgress (SessionRow.isInProgress_of_isAsSeen hr)
      simp [hlive] at hrests

end Entry

variable {id : String} {i : Nat} {worker : String} {st st' : Store} {es log : List (Entry Store)}

/-- Where a session has left the queue, one of the statements has taken it. -/
theorem exists_taker (h : Chain Store.engine st es st') (hwaits : st.waits id = true)
    (hgone : st'.waits id = false) :
    ∃ first taker rest, es = first ++ taker :: rest ∧ taker.takes id = true := by
  induction es generalizing st with
  | nil =>
    obtain rfl : st' = st := h
    rw [hwaits] at hgone
    cases hgone
  | cons e es ih =>
    obtain ⟨rfl, hrest⟩ := h
    cases hafter : (Store.engine e.statement e.before).2.waits id with
    | true =>
      obtain ⟨first, taker, rest, rfl, htakes⟩ := ih hrest hafter
      exact ⟨e :: first, taker, rest, rfl, htakes⟩
    | false => exact ⟨[], e, es, rfl, by rw [Entry.takes, hwaits, hafter]; rfl⟩

def candidate? (i : Nat) (log : List (Entry Store)) : Option String :=
  (own i log).getLast?.bind Entry.selected?

end Pool

/-! ### The rounds of a worker -/

namespace Sessions

def rounds (es : List (Pool.Entry Store)) : Nat := es.countP (·.isSelection)

def lost (es : List (Pool.Entry Store)) : Nat := es.countP (·.loses)

def SawNone (es : List (Pool.Entry Store)) : Prop :=
  ∃ look, es.getLast? = some look ∧ look.statement = .oldestPending ∧ look.before.next? = none

/-- Where a worker stands after so many turns and these statements of its own. It has lost every
round but the one that it may be in, and a lost round has taken four turns. -/
inductive Seeking (worker : String) (turns : Nat) (es : List (Pool.Entry Store)) :
    Call (Except Failure (Option Session)) → Prop
  | ready (hrounds : rounds es = lost es) (hturns : turns ≤ 4 * lost es)
      (hlast : es.getLast?.any (·.isSelection) = false) :
      Seeking worker turns es (.ask .oldestPending (chosen worker))
  | chosen (id : String) (hrounds : rounds es = lost es + 1) (hturns : turns ≤ 4 * lost es + 1)
      (hlast : es.getLast?.bind (·.selected?) = some id) :
      Seeking worker turns es
        (.clock fun now => .ask (.claimSession id worker (.ofInstant now)) (counted id))
  | dated (id : String) (now : Instant) (hrounds : rounds es = lost es + 1)
      (hturns : turns ≤ 4 * lost es + 2) (hlast : es.getLast?.bind (·.selected?) = some id) :
      Seeking worker turns es (.ask (.claimSession id worker (.ofInstant now)) (counted id))
  | beaten (hrounds : rounds es = lost es) (hturns : turns + 1 ≤ 4 * lost es)
      (hlast : es.getLast?.any (·.isSelection) = false) : Seeking worker turns es .again
  | won (id : String) (hrounds : rounds es = lost es + 1) (hturns : turns ≤ 4 * lost es + 3)
      (hlast : es.getLast?.any (·.isSelection) = false) :
      Seeking worker turns es (.ask (.findSession id) (found id))
  | idle (hrounds : rounds es = lost es + 1) (hlast : SawNone es) :
      Seeking worker turns es (.done (.ok none))
  | ended (a : Except Failure (Option Session)) (hrounds : rounds es ≤ lost es + 1)
      (ha : a ≠ .ok none)
      (hlast : es.getLast?.any (·.isSelection) = false) : Seeking worker turns es (.done a)

section
variable {worker : String} {turns i : Nat} {es : List (Pool.Entry Store)} {st : Store}

theorem seeking_start (worker : String) (hrounds : rounds es = lost es)
    (hturns : turns ≤ 4 * lost es) (hlast : es.getLast?.any (·.isSelection) = false) :
    Seeking worker turns es (claimNext worker).run := by
  cases hworker : Text.isBlank worker with
  | false =>
    rw [claimNext_run hworker]
    exact .ready hrounds hturns hlast
  | true =>
    unfold claimNext
    rw [hworker]
    exact .ended _ (hrounds.le.trans (Nat.le_succ _)) nofun hlast

theorem Seeking.done {a : Except Failure (Option Session)} (h : Seeking worker turns es (.done a))
    (turns' : Nat) : Seeking worker turns' es (.done a) := by
  cases h with
  | idle hrounds hlast => exact .idle hrounds hlast
  | ended _ hrounds ha hlast => exact .ended a hrounds ha hlast

theorem Seeking.again (h : Seeking worker turns es .again) :
    Seeking worker (turns + 1) es (claimNext worker).run := by
  cases h with
  | beaten hrounds hturns hlast => exact seeking_start worker hrounds hturns hlast

theorem Seeking.clock {next : Instant → Call (Except Failure (Option Session))}
    (h : Seeking worker turns es (.clock next)) (now : Instant) :
    Seeking worker (turns + 1) es (next now) := by
  cases h with
  | chosen id hrounds hturns hlast => exact .dated id now hrounds (by omega) hlast

theorem found_done (id : String) (row : Except Failure (Option SessionRow)) :
    ∃ a, found id row = .done a ∧ a ≠ .ok none := by
  rcases row with e | (_ | row)
  · exact ⟨_, rfl, by simp⟩
  · exact ⟨_, rfl, by simp⟩
  · simp only [found]
    split <;> exact ⟨_, rfl, by simp⟩

theorem rounds_concat (es : List (Pool.Entry Store)) (e : Pool.Entry Store) :
    rounds (es ++ [e]) = rounds es + if e.isSelection then 1 else 0 := by
  simp [rounds, List.countP_append]

theorem lost_concat (es : List (Pool.Entry Store)) (e : Pool.Entry Store) :
    lost (es ++ [e]) = lost es + if e.loses then 1 else 0 := by
  simp [lost, List.countP_append]

theorem Seeking.ask {s : Statement} {next : Except Failure s.Answer → Call _} (hst : st.Keyed)
    (h : Seeking worker turns es (.ask s next)) :
    Seeking worker (turns + 1) (es ++ [⟨i, s, st⟩]) (next (Store.engine s st).1) := by
  cases h with
  | ready hrounds hturns hlast =>
    have hrounds' : rounds (es ++ [⟨i, .oldestPending, st⟩]) = rounds es + 1 := rounds_concat ..
    have hlost' : lost (es ++ [⟨i, .oldestPending, st⟩]) = lost es := lost_concat ..
    change Seeking worker _ _ (Sessions.chosen worker (.ok st.next?))
    cases hnext : st.next? with
    | none => exact .idle (by omega) ⟨_, List.getLast?_concat, rfl, hnext⟩
    | some id =>
      refine .chosen id (by omega) (by omega) ?_
      rw [List.getLast?_concat]
      exact hnext
  | dated id now hrounds hturns hlast =>
    have hrounds' : rounds (es ++ [⟨i, .claimSession id worker (.ofInstant now), st⟩]) =
        rounds es :=
      rounds_concat ..
    have hlost' := lost_concat es ⟨i, .claimSession id worker (.ofInstant now), st⟩
    have hloses : Pool.Entry.loses ⟨i, .claimSession id worker (.ofInstant now), st⟩ =
      !st.waits id := rfl
    have hlast' : (es ++ [(⟨i, .claimSession id worker (.ofInstant now), st⟩ :
        Pool.Entry Store)]).getLast?.any (·.isSelection) = false := by
      rw [List.getLast?_concat]
      rfl
    rw [Store.counted_claimSession hst]
    -- A claim that comes too late is what makes up for the round in which it was made.
    cases hwaits : st.waits id with
    | true =>
      simp only [hloses, hwaits, Bool.not_true, Bool.false_eq_true, if_false] at hlost'
      exact .won id (by omega) (by omega) hlast'
    | false =>
      simp only [hloses, hwaits, Bool.not_false, if_true] at hlost'
      exact .beaten (by omega) (by omega) hlast'
  | won id hrounds hturns hlast =>
    have hrounds' : rounds (es ++ [⟨i, .findSession id, st⟩]) = rounds es := rounds_concat ..
    have hlost' : lost (es ++ [⟨i, .findSession id, st⟩]) = lost es := lost_concat ..
    obtain ⟨a, hdone, ha⟩ := found_done id (Store.engine (.findSession id) st).1
    rw [hdone]
    refine .ended a (by omega) ha ?_
    rw [List.getLast?_concat]
    rfl

theorem stepsKeep_seeking (worker : String) (i : Nat) :
    Call.StepsKeep Store.engine Store.Keyed i (claimNext worker).run (Seeking worker) where
  done h := h.done _
  ask hst h := h.ask hst
  clock now h := h.clock now
  again h := h.again

theorem Seeking.rounds_le {rest : Call (Except Failure (Option Session))}
    (h : Seeking worker turns es rest) : rounds es ≤ lost es + 1 := by
  cases h with
  | ready hrounds | chosen _ hrounds | dated _ _ hrounds | beaten hrounds | won _ hrounds
  | idle hrounds | ended _ hrounds => omega

/-- With four turns for each round that it may have to make, the worker is done. -/
theorem Seeking.exists_done {rest : Call (Except Failure (Option Session))}
    (h : Seeking worker turns es rest) (hturns : 4 * (lost es + 1) ≤ turns) :
    ∃ a, rest = .done a := by
  cases h with
  | idle | ended => exact ⟨_, rfl⟩
  | ready _ h | chosen _ _ h | dated _ _ _ h | beaten _ h | won _ _ h => omega

theorem not_sawNone_of_other (hlast : es.getLast?.any (·.isSelection) = false) : ¬ SawNone es := by
  intro hsaw
  obtain ⟨look, hlook, hstatement, _⟩ := hsaw
  rw [hlook, Option.any_some, Pool.Entry.isSelection, hstatement] at hlast
  cases hlast

theorem not_sawNone_of_selected {id : String} (hlast : es.getLast?.bind (·.selected?) = some id) :
    ¬ SawNone es := by
  intro hsaw
  obtain ⟨look, hlook, hstatement, hnone⟩ := hsaw
  rw [hlook, Option.bind_some, Pool.Entry.selected?, Pool.Entry.isSelection, hstatement,
    hnone] at hlast
  cases hlast

/-- The worker is told that nothing waits exactly when it has looked last and nothing waited. -/
theorem Seeking.idle_iff {rest : Call (Except Failure (Option Session))}
    (h : Seeking worker turns es rest) : rest = .done (.ok none) ↔ SawNone es := by
  cases h with
  | idle _ hlast => exact iff_of_true rfl hlast
  | chosen _ _ _ hlast | dated _ _ _ _ hlast =>
    exact iff_of_false nofun (not_sawNone_of_selected hlast)
  | ready _ _ hlast | beaten _ _ hlast | won _ _ _ hlast =>
    exact iff_of_false nofun (not_sawNone_of_other hlast)
  | ended a _ ha hlast =>
    exact iff_of_false (fun hdone => ha (Call.done.inj hdone)) (not_sawNone_of_other hlast)

end
end Sessions

namespace Pool

variable {requests : List Request} {schedule : List (Nat × Instant)} {i n m : Nat}
  {worker id : String}
  {st : Store} {first rest : List (Entry Store)} {e : Entry Store} {log : List (Entry Store)}

/-- A worker in a run is somewhere on its way. -/
theorem seeking_run (schedule : List (Nat × Instant)) (hst : st.Keyed)
    (hr : requests[i]? = some (.claim worker)) :
    ∃ f rest, (run Store.engine schedule (Request.replies requests) st).1[i]? = some f ∧
      f.rest = rest.map (·.map Reply.claimed) ∧
      Sessions.Seeking worker (Sessions.turns schedule i)
        (own i (Pool.log Store.engine schedule (Request.replies requests) st)) rest := by
  have hf : (Request.replies requests)[i]? =
      some (Flight.map (·.map Reply.claimed) (.start (Sessions.claimNext worker).run)) := by
    rw [Request.replies, List.getElem?_map, hr]
    exact congrArg some (congrArg Flight.start (Service.run_bind_pure _ Reply.claimed))
  obtain ⟨rest, hrest, hseeking⟩ := known_run (Sessions.stepsKeep_seeking worker i)
    (fun s _ h => Statement.keyed_engine h s) hst hf
    (Sessions.seeking_start worker rfl (Nat.zero_le _) rfl) schedule
  exact ⟨_, rest, hrest, rfl, hseeking⟩

/-- What a worker claims is what it has selected last. -/
theorem candidate?_of_claim (hst : st.Keyed)
    (hlog : Pool.log Store.engine schedule (Request.replies requests) st = first ++ e :: rest)
    (hr : requests[e.caller]? = some (.claim worker)) {worker' : String} {now : Stamp}
    (hclaim : e.statement = .claimSession id worker' now) :
    candidate? e.caller first = some id := by
  obtain ⟨made, later, _, rfl, _, f, next, hf, hrest⟩ := asked_run hlog
  obtain ⟨f', rest', hf', hrest', hseeking⟩ := seeking_run made hst hr
  obtain rfl := Option.some.inj (hf.symm.trans hf')
  obtain ⟨caller, statement, before⟩ := e
  obtain rfl : statement = .claimSession id worker' now := hclaim
  rw [hrest'] at hrest
  cases hseeking with
  | dated id' now' _ _ hlast =>
    cases hrest
    exact hlast
  | ready | won | chosen | beaten | idle | ended => cases hrest

/-- Between the selection of a session and a claim of it in vain, another call has taken it. -/
theorem exists_taker_of_lost {st' : Store} (hchain : Chain Store.engine st (first ++ e :: rest) st')
    (hcandidate : candidate? i first = some id) (hgone : e.before.waits id = false) :
    ∃ before taker after, first = before ++ taker :: after ∧ taker.caller ≠ i ∧
      taker.takes id = true ∧ own i before = own i first := by
  obtain ⟨look, hlook, hselected⟩ := Option.bind_eq_some_iff.mp hcandidate
  obtain ⟨earlier, hown⟩ := List.getLast?_eq_some_iff.mp hlook
  obtain ⟨start, between, rfl, hstart, hcaller, hnone⟩ := split_own_last hown
  have hwaits : (Store.engine look.statement look.before).2.waits id = true := by
    unfold Entry.selected? at hselected
    split at hselected
    · next hselection =>
      rw [beq_iff_eq.mp hselection]
      exact Store.waits_of_next? hselected
    · cases hselected
  rw [List.append_assoc] at hchain
  obtain ⟨quiet, taker, after, rfl, htakes⟩ := exists_taker (chain_between hchain) hwaits hgone
  have hquiet := List.filter_eq_nil_iff.mp hnone
  refine ⟨start ++ look :: quiet, taker, after, by simp, fun hsame => ?_, htakes, ?_⟩
  · exact hquiet taker (by simp) (beq_iff_eq.mpr hsame)
  · have hbefore : own i quiet = [] :=
      List.filter_eq_nil_iff.mpr fun e he => hquiet e (List.mem_append_left _ he)
    have hown' : own i (start ++ look :: quiet) = own i start ++ look :: own i quiet := by
      simp [own, hcaller]
    rw [hown, hown', hbefore, hstart]

/-! ### Places of the log -/

def losesAt (i : Nat) (log : List (Entry Store)) (n : Nat) : Bool :=
  log[n]?.any fun e => e.caller == i && e.loses

/-- At this place of the log another call takes from this one the session that it has selected. -/
def takenAt (i : Nat) (log : List (Entry Store)) (n : Nat) : Bool :=
  log[n]?.any fun e => e.caller != i && (candidate? i (log.take n)).any e.takes

def taken (i : Nat) (log : List (Entry Store)) : Nat :=
  Nat.count (takenAt i log ·) log.length

/-- The claim at place `n` was lost to the statement at place `m`, by which another call took out of
the queue what the call had selected. The call asked nothing between the two. -/
structure LostTo (i : Nat) (log : List (Entry Store)) (n m : Nat) (id : String) : Prop where
  selected : candidate? i (log.take n) = some id
  claim : ∃ e worker now, log[n]? = some e ∧ e.caller = i ∧
    e.statement = .claimSession id worker now ∧
    (Store.engine (.claimSession id worker now) e.before).1 = .ok (0 : Nat)
  taker : ∃ e, log[m]? = some e ∧ e.caller ≠ i ∧ e.takes id = true ∧
    ((∃ worker now, e.statement = .claimSession id worker now) ∨
      ∃ cutoff now, e.statement = .deleteExpired cutoff now)
  earlier : m < n
  between : own i (log.take m) = own i (log.take n)

theorem split_at {α : Type} {l : List α} {a : α} (h : l[n]? = some a) :
    l = l.take n ++ a :: l.drop (n + 1) := by
  obtain ⟨hn, rfl⟩ := List.getElem?_eq_some_iff.mp h
  rw [← List.drop_eq_getElem_cons hn, List.take_append_drop]

theorem LostTo.takenAt (h : LostTo i log n m id) : takenAt i log m = true := by
  obtain ⟨e, he, hcaller, htakes, _⟩ := h.taker
  have hselected : candidate? i (log.take m) = some id := by
    rw [candidate?, h.between]
    exact h.selected
  simp [Pool.takenAt, he, hselected, hcaller, htakes]

/-- Each of its own statements adds to what the call has asked. -/
theorem own_take_ne {n' : Nat} (h : log[n]? = some e) (hcaller : e.caller = i) (hlater : n < n') :
    own i (log.take n) ≠ own i (log.take n') := by
  intro hsame
  have hnext : own i (log.take (n + 1)) = own i (log.take n) ++ [e] := by
    rw [List.take_add_one, h, own, List.filter_append]
    simp [own, hcaller]
  have hsub : (log.take (n + 1)).Sublist (log.take n') :=
    (List.take_prefix_take_left hlater).sublist
  have hlength := (hsub.filter (·.caller == i)).length_le
  change (own i _).length ≤ (own i _).length at hlength
  rw [hnext, ← hsame, List.length_append, List.length_singleton] at hlength
  omega

/-- No two claims of a call are lost to one statement. -/
theorem LostTo.unique {n' : Nat} {id' : String} (h : LostTo i log n m id)
    (h' : LostTo i log n' m id') :
    n = n' := by
  have hsame := h.between.symm.trans h'.between
  obtain ⟨e, _, _, he, hcaller, _⟩ := h.claim
  obtain ⟨e', _, _, he', hcaller', _⟩ := h'.claim
  rcases Nat.lt_trichotomy n n' with hlt | heq | hgt
  · exact absurd hsame (own_take_ne he hcaller hlt)
  · exact heq
  · exact absurd hsame.symm (own_take_ne he' hcaller' hgt)

/-- A claim that comes too late was lost to the statement that took what the call had selected. -/
theorem exists_lostTo_of_chain {st' : Store} {worker : String} {now : Stamp}
    (hchain : Chain Store.engine st log st') (hst : st.Keyed) (he : log[n]? = some e)
    (hcaller : e.caller = i) (hclaim : e.statement = .claimSession id worker now)
    (hselected : candidate? i (log.take n) = some id) (hgone : e.before.waits id = false) :
    ∃ m, LostTo i log n m id := by
  have hlog := split_at he
  obtain ⟨before, taker, after, hfirst, hother, htakes, hown⟩ :=
    exists_taker_of_lost (hlog ▸ hchain) hselected hgone
  have hplace : log = before ++ taker :: (after ++ e :: log.drop (n + 1)) := by
    rw [hfirst] at hlog
    simpa using hlog
  have htaker : log[before.length]? = some taker := by
    rw [hplace, List.getElem?_append_right le_rfl, Nat.sub_self]
    rfl
  have hkeyed : taker.before.Keyed :=
    chain_meets hchain (fun e _ h => Statement.keyed_engine h e.statement) hst taker
      (List.mem_of_getElem? htaker)
  refine ⟨before.length, hselected, ⟨e, worker, now, he, hcaller, hclaim, ?_⟩,
    ⟨taker, htaker, hother, htakes, Entry.claim_or_sweep_of_takes hkeyed htakes⟩, ?_, ?_⟩
  · exact Store.engine_claimSession_of_not_waits hgone worker now
  · have hlength := congrArg List.length hfirst
    simp only [List.length_take, List.length_append, List.length_cons] at hlength
    omega
  · have htake : log.take before.length = before := by
      rw [hplace]
      exact List.take_left ..
    rw [htake, hown]

/-- A list has as many entries of a kind as it has places for them. -/
theorem count_places {α : Type} (P : α → Bool) (l : List α) :
    Nat.count (fun n => l[n]?.any P = true) l.length = l.countP P := by
  induction l with
  | nil => rfl
  | cons a l ih =>
    rw [List.length_cons, Nat.count_succ', List.countP_cons, ← ih]
    rfl

/-- The races that a call has lost are as many as the places at which it lost them. -/
theorem lost_own (i : Nat) (log : List (Entry Store)) :
    Sessions.lost (own i log) = Nat.count (losesAt i log ·) log.length := by
  unfold losesAt
  rw [count_places, Sessions.lost, own, List.countP_filter]
  simp only [Bool.and_comm]

/-- Where each loss is charged to a statement of its own, there are no more losses than such
statements. -/
theorem lost_le_taken {charge : Nat → Nat} (hinj : Set.InjOn charge {n | losesAt i log n = true})
    (hcharge : ∀ n, losesAt i log n = true → charge n < n ∧ takenAt i log (charge n) = true) :
    Sessions.lost (own i log) ≤ taken i log := by
  have hmaps : ∀ n ∈ (Finset.range log.length).filter (losesAt i log ·),
      charge n ∈ (Finset.range log.length).filter (takenAt i log ·) := by
    intro n hn
    obtain ⟨hlt, hloses⟩ := Finset.mem_filter.mp hn
    obtain ⟨hearlier, htaken⟩ := hcharge n hloses
    refine Finset.mem_filter.mpr ⟨?_, htaken⟩
    exact Finset.mem_range.mpr (hearlier.trans (Finset.mem_range.mp hlt))
  have hinj' : Set.InjOn charge ((Finset.range log.length).filter (losesAt i log ·)) :=
    hinj.mono fun n hn => (Finset.mem_filter.mp hn).2
  calc Sessions.lost (own i log)
      = ((Finset.range log.length).filter (losesAt i log ·)).card := by
        rw [lost_own, Nat.count_eq_card_filter_range]
    _ ≤ ((Finset.range log.length).filter (takenAt i log ·)).card :=
        Finset.card_le_card_of_injOn charge hmaps hinj'
    _ = taken i log := (Nat.count_eq_card_filter_range ..).symm

/-- A worker loses each of its races to some statement of another call. -/
theorem exists_lostTo (hst : st.Keyed) (hr : requests[i]? = some (.claim worker))
    (hlost : losesAt i (Pool.log Store.engine schedule (Request.replies requests) st) n = true) :
    ∃ m id, LostTo i (Pool.log Store.engine schedule (Request.replies requests) st) n m id := by
  obtain ⟨e, he, hloses⟩ := (Option.any_eq_true ..).mp hlost
  rw [Bool.and_eq_true, beq_iff_eq] at hloses
  obtain ⟨rfl, hloses⟩ := hloses
  unfold Entry.loses at hloses
  split at hloses
  · next id worker' now hclaim =>
    have hselected := candidate?_of_claim hst (split_at he) hr hclaim
    obtain ⟨m, hlostTo⟩ := exists_lostTo_of_chain (chain_log ..) hst he rfl hclaim hselected
      ((Bool.not_eq_true' _).mp hloses)
    exact ⟨m, id, hlostTo⟩
  · cases hloses

/-- A worker that competes with any other calls. Each of its claims that came too late can be
charged to a statement by which another call took its candidate out of the queue after it had
selected it, and no two of them to one statement. So it makes at most one round more than there are
such statements, and it is done when it has had four turns for each of these rounds. It is told that
nothing waits exactly when nothing waited as it looked last. -/
theorem lost_races_charged (hst : st.Keyed) (requests : List Request)
    (schedule : List (Nat × Instant)) (hr : requests[i]? = some (.claim worker)) :
    let entries := Pool.log Store.engine schedule (Request.replies requests) st
    let final := (run Store.engine schedule (Request.replies requests) st).1
    (∃ charge : Nat → Nat, Set.InjOn charge {n | losesAt i entries n = true} ∧
      ∀ n, losesAt i entries n = true → ∃ id, LostTo i entries n (charge n) id) ∧
    Sessions.rounds (own i entries) ≤ taken i entries + 1 ∧
    (4 * (taken i entries + 1) ≤ Sessions.turns schedule i → (reply? i final).isSome = true) ∧
    (reply? i final = some (.ok (.claimed none)) ↔
      ∃ look, (own i entries).getLast? = some look ∧ look.statement = .oldestPending ∧
        ∀ r ∈ look.before.sessions, r.isClaimable = false) := by
  intro entries final
  obtain ⟨f, rest, hf, hrest, hseeking⟩ := seeking_run schedule hst hr
  have hseeking : Sessions.Seeking worker (Sessions.turns schedule i) (own i entries) rest :=
    hseeking
  have hreply : reply? i final = f.answer? := by
    rw [reply?, hf]
    rfl
  have hcharged : ∀ n, losesAt i entries n = true → ∃ m id, LostTo i entries n m id :=
    fun n hlost => exists_lostTo hst hr hlost
  choose! charge candidate hlostTo using hcharged
  have hinj : Set.InjOn charge {n | losesAt i entries n = true} := by
    intro n hn n' hn' hsame
    have hn' := hlostTo n' hn'
    rw [← hsame] at hn'
    exact (hlostTo n hn).unique hn'
  have hle : Sessions.lost (own i entries) ≤ taken i entries :=
    lost_le_taken hinj fun n hn => ⟨(hlostTo n hn).earlier, (hlostTo n hn).takenAt⟩
  refine ⟨⟨charge, hinj, fun n hn => ⟨candidate n, hlostTo n hn⟩⟩, ?_, fun hturns => ?_, ?_⟩
  · exact hseeking.rounds_le.trans (Nat.succ_le_succ hle)
  · obtain ⟨a, rfl⟩ := hseeking.exists_done (by omega)
    rw [hreply, Flight.answer?, hrest]
    rfl
  · have hlooked := hseeking.idle_iff
    simp only [Sessions.SawNone, Store.next?_eq_none_iff] at hlooked
    rw [hreply, ← hlooked, Flight.answer?, hrest]
    cases rest with
    | done a => rcases a with e | (_ | s) <;> simp [Call.map, Call.bind, Except.map]
    | ask | clock | again => simp [Call.map, Call.bind]

end Pool

/-! The one session there is is selected by a worker and claimed by another, given back and selected
once more, and then deleted. -/

namespace OneSession

def outrun : List (Nat × Instant) :=
  List.replicate 9 (0, ⟨0⟩) ++ [(3, ⟨0⟩)] ++ List.replicate 9 (1, ⟨0⟩) ++
    List.replicate 3 (3, ⟨0⟩) ++ List.replicate 9 (2, ⟨0⟩) ++ [(3, late)] ++
    List.replicate 3 (4, late) ++ List.replicate 4 (3, late)

def outrunners : List Request := requests ++ [.deleteSessions 90]

def races : List (Pool.Entry Store) :=
  Pool.log Store.engine outrun (Request.replies outrunners) {}

end OneSession

namespace Pool

open OneSession

/-- The worker loses two races for one session, to a claim and to a sweep, and is told in its third
round that nothing waits. -/
theorem lost_races_charged_twice : taken 3 races = 2 ∧ Sessions.rounds (own 3 races) = 3 ∧
    (∃ charge : Nat → Nat, charge 5 ≠ charge 9 ∧ LostTo 3 races 5 (charge 5) "s" ∧
      LostTo 3 races 9 (charge 9) "s") ∧
    reply? 3 (run Store.engine outrun (Request.replies outrunners) {}).1 =
      some (.ok (.claimed none)) := by
  have hkeyed : ({} : Store).Keyed := balanced_empty.keyed
  have hworker : outrunners[3]? = some (.claim "b") := rfl
  obtain ⟨⟨charge, hinj, hcharge⟩, _, _, hidle⟩ :=
    lost_races_charged hkeyed outrunners outrun hworker
  have hlost : losesAt 3 races 5 = true ∧ losesAt 3 races 9 = true := by decide +kernel
  have hselected : candidate? 3 (races.take 5) = some "s" ∧
      candidate? 3 (races.take 9) = some "s" := by
    decide +kernel
  have hlast : ((own 3 races).getLast?.any fun look => look.statement == .oldestPending &&
      look.before.sessions.all fun r => !r.isClaimable) = true := by
    decide +kernel
  refine ⟨by decide +kernel, by decide +kernel, ⟨charge, fun hsame => ?_, ?_, ?_⟩, hidle.mpr ?_⟩
  · exact absurd (hinj hlost.1 hlost.2 hsame) (by decide)
  · obtain ⟨id, hlostTo⟩ := hcharge 5 hlost.1
    rwa [Option.some.inj (hselected.1.symm.trans hlostTo.selected)]
  · obtain ⟨id, hlostTo⟩ := hcharge 9 hlost.2
    rwa [Option.some.inj (hselected.2.symm.trans hlostTo.selected)]
  · obtain ⟨look, hlook, hboth⟩ := (Option.any_eq_true ..).mp hlast
    rw [Bool.and_eq_true, beq_iff_eq, List.all_eq_true] at hboth
    exact ⟨look, hlook, hboth.1, fun r hr => (Bool.not_eq_true' _).mp (hboth.2 r hr)⟩

end Pool
end AlertDesk
