import AlertDesk.Proofs.Asking
import AlertDesk.Proofs.Effects
import AlertDesk.Proofs.Queue
import AlertDesk.Proofs.StoredTimes
import AlertDesk.Service.Claim
import Mathlib.Data.List.Perm.Subperm
import Mathlib.Tactic.IntervalCases

/-!
Workers that claim sessions at the same time. The claims that take effect do so in the order of
the queue, whoever makes them. A worker that lost its candidate has seen the queue get shorter, so
each worker comes to an end.
-/
namespace AlertDesk

structure Claim where
  caller : Nat
  id : String
  worker : String
  taken : Stamp

def Pool.Entry.claim? (e : Pool.Entry Store) : Option Claim :=
  match e.statement with
  | .claimSession id worker now =>
    if e.before.sessions.any fun r => r.id == id && r.isClaimable then
      some ⟨e.caller, id, worker, now⟩
    else none
  | _ => none

def SessionRow.afterClaims (claims : List Claim) (r : SessionRow) : SessionRow :=
  match claims.find? (·.id == r.id) with
  | some c => r.claimed c.worker c.taken
  | none => r

def Store.afterClaims (st : Store) (claims : List Claim) : Store :=
  { st with sessions := st.sessions.map (SessionRow.afterClaims claims) }

namespace SessionRow

variable {claims : List Claim} {r : SessionRow}

theorem id_afterClaims (claims : List Claim) (r : SessionRow) :
    (r.afterClaims claims).id = r.id := by
  unfold afterClaims
  split <;> rfl

theorem afterClaims_of_not_mem (h : r.id ∉ claims.map (·.id)) : r.afterClaims claims = r := by
  have hnone : claims.find? (·.id == r.id) = none := by
    rw [List.find?_eq_none]
    intro c hc hid
    exact h (List.mem_map.mpr ⟨c, hc, by simpa using hid⟩)
  simp [afterClaims, hnone]

/-- Only one claim can name a row, since no two are of one session. -/
theorem afterClaims_of_mem {c : Claim} (hnodup : (claims.map (·.id)).Nodup) (hc : c ∈ claims)
    (hid : c.id = r.id) : r.afterClaims claims = r.claimed c.worker c.taken := by
  have hfind : claims.find? (·.id == r.id) = some c := Store.find?_key hnodup hc hid
  simp [afterClaims, hfind]

theorem Readable.claimed (h : r.Readable) {taken : Stamp} (htaken : taken.Readable)
    (worker : String) : (r.claimed worker taken).Readable where
  createdAt := h.createdAt
  startedAt := Stamp.readable_some htaken
  lastInteractionAt := Stamp.readable_some htaken
  completedAt := h.completedAt
  deletedAt := h.deletedAt

theorem isClaimable_afterClaims (claims : List Claim) (r : SessionRow) :
    (r.afterClaims claims).isClaimable = (r.isClaimable && !(claims.map (·.id)).contains r.id) := by
  by_cases hmem : r.id ∈ claims.map (·.id)
  · obtain ⟨c, hc⟩ : ∃ c, claims.find? (·.id == r.id) = some c := by
      obtain ⟨c, hc, hid⟩ := List.mem_map.mp hmem
      rw [← Option.isSome_iff_exists, List.find?_isSome]
      exact ⟨c, hc, by simpa using hid⟩
    have hcontains : (claims.map (·.id)).contains r.id = true := by simpa using hmem
    rw [hcontains]
    simp [afterClaims, hc, claimed, isClaimable]
  · have hcontains : (claims.map (·.id)).contains r.id = false := by simpa using hmem
    rw [afterClaims_of_not_mem hmem, hcontains]
    simp

end SessionRow

namespace Store

variable {st : Store} {claims : List Claim}

/-- The claims took the sessions from the front of the queue, one after the other. -/
def ClaimedInOrder (st : Store) (claims : List Claim) : Prop :=
  claims.map (·.id) = (st.queue.take claims.length).map (·.id)

theorem queue_nodup (hids : (st.sessions.map (·.id)).Nodup) : (st.queue.map (·.id)).Nodup :=
  ((st.queue_perm.map _).nodup_iff).mpr (hids.sublist (List.filter_sublist.map _))

theorem ClaimedInOrder.nodup (h : st.ClaimedInOrder claims)
    (hids : (st.sessions.map (·.id)).Nodup) :
    (claims.map (·.id)).Nodup := by
  rw [h]
  exact (queue_nodup hids).sublist ((List.take_sublist _ _).map _)

theorem ClaimedInOrder.length_le (h : st.ClaimedInOrder claims) :
    claims.length ≤ st.queue.length := by
  have hlength := congrArg List.length h
  simp only [List.length_map, List.length_take] at hlength
  omega

/-- The claimed sessions are those at the front. -/
theorem filter_queue (h : st.ClaimedInOrder claims) (hids : (st.sessions.map (·.id)).Nodup) :
    (st.queue.filter fun r => !(claims.map (·.id)).contains r.id) =
      st.queue.drop claims.length := by
  have hsplit : st.queue.take claims.length ++ st.queue.drop claims.length = st.queue :=
    List.take_append_drop _ _
  have hnodup := queue_nodup hids
  rw [← hsplit, List.map_append, List.nodup_append] at hnodup
  conv_lhs => rw [← hsplit, List.filter_append, h]
  have hfront : ((st.queue.take claims.length).filter fun r =>
      !((st.queue.take claims.length).map (·.id)).contains r.id) = [] := by
    rw [List.filter_eq_nil_iff]
    intro r hr
    have hmem : r.id ∈ (st.queue.take claims.length).map (·.id) := List.mem_map_of_mem hr
    simpa only [Bool.not_eq_true', Bool.not_eq_false, List.contains_iff_mem] using hmem
  have hback : ((st.queue.drop claims.length).filter fun r =>
      !((st.queue.take claims.length).map (·.id)).contains r.id) =
        st.queue.drop claims.length := by
    rw [List.filter_eq_self]
    intro r hr
    simp only [Bool.not_eq_true', List.contains_eq_mem, decide_eq_false_iff_not]
    intro hmem
    exact hnodup.2.2 _ hmem _ (List.mem_map.mpr ⟨r, hr, rfl⟩) rfl
  rw [hfront, hback, List.nil_append]

/-- What still waits after the claims is the rest of the queue. -/
theorem waiting_perm (h : st.ClaimedInOrder claims) (hids : (st.sessions.map (·.id)).Nodup) :
    ((st.afterClaims claims).sessions.filter (·.isClaimable)).Perm
      (st.queue.drop claims.length) := by
  have hwaiting : (st.afterClaims claims).sessions.filter (·.isClaimable) =
      (st.sessions.filter (·.isClaimable)).filter fun r => !(claims.map (·.id)).contains r.id := by
    simp only [afterClaims, List.filter_map, Function.comp_def,
      SessionRow.isClaimable_afterClaims, List.filter_filter]
    rw [List.filter_congr fun r _ => Bool.and_comm _ _]
    refine (List.map_congr_left fun r hr => ?_).trans (List.map_id' _)
    have hnot : r.id ∉ claims.map (·.id) := by
      have hr := (List.mem_filter.mp hr).2
      simp only [Bool.and_eq_true, Bool.not_eq_true'] at hr
      simpa using hr.1
    exact SessionRow.afterClaims_of_not_mem hnot
  rw [hwaiting, ← filter_queue h hids]
  exact (st.queue_perm.symm).filter _

/-- The candidate is the next session of the queue. -/
theorem engine_oldestPending (h : st.ClaimedInOrder claims)
    (hids : (st.sessions.map (·.id)).Nodup) :
    Store.engine .oldestPending (st.afterClaims claims) =
      (.ok (st.queue[claims.length]?.map (·.id)), st.afterClaims claims) := by
  have hfirst := SessionRow.first?_eq_head? (waiting_perm h hids).symm
    ((queue_sorted hids).drop)
  simp only [Store.engine, Statement.exec, hfirst, List.head?_drop]

theorem countP_claimable (h : st.ClaimedInOrder claims) (hids : (st.sessions.map (·.id)).Nodup)
    (id : String) :
    (st.afterClaims claims).sessions.countP (fun r => r.id == id && r.isClaimable) =
      if id ∈ (st.queue.drop claims.length).map (·.id) then 1 else 0 := by
  have hrest : ((st.queue.drop claims.length).map (·.id)).Nodup :=
    (queue_nodup hids).sublist ((List.drop_sublist _ _).map _)
  rw [← List.countP_filter, (waiting_perm h hids).countP_eq, ← hrest.count, List.count,
    List.countP_map]
  rfl

theorem mem_queue_of_getElem? {j : Nat} {r : SessionRow} (hr : st.queue[j]? = some r) :
    r ∈ st.sessions ∧ r.isClaimable = true :=
  List.mem_filter.mp (st.queue_perm.mem_iff.mp (List.mem_of_getElem? hr))

theorem id_mem_drop_queue (hids : (st.sessions.map (·.id)).Nodup) {j n : Nat} {r : SessionRow}
    (hr : st.queue[j]? = some r) : r.id ∈ (st.queue.drop n).map (·.id) ↔ n ≤ j := by
  obtain ⟨hj, rfl⟩ := List.getElem?_eq_some_iff.mp hr
  constructor
  · intro hmem
    obtain ⟨k, hk, hid⟩ := List.mem_iff_getElem.mp hmem
    simp only [List.length_map, List.length_drop, List.getElem_map, List.getElem_drop] at hk hid
    have hlast : n + k < (st.queue.map (·.id)).length := by
      rw [List.length_map]
      omega
    have hj' : j < (st.queue.map (·.id)).length := by rwa [List.length_map]
    have hsame : (st.queue.map (·.id))[n + k] = (st.queue.map (·.id))[j] := by simpa using hid
    rw [(queue_nodup hids).getElem_inj_iff] at hsame
    omega
  · intro hn
    refine List.mem_map.mpr ⟨st.queue[j], ?_, rfl⟩
    rw [List.mem_iff_getElem]
    refine ⟨j - n, by simp only [List.length_drop]; omega, ?_⟩
    simp only [List.getElem_drop]
    congr 1
    omega

/-- A candidate that another call took is claimed in vain. -/
theorem engine_claimSession_lost (h : st.ClaimedInOrder claims)
    (hids : (st.sessions.map (·.id)).Nodup) {j : Nat} {r : SessionRow} (hr : st.queue[j]? = some r)
    (hj : j < claims.length) (worker : String) (now : Stamp) :
    Store.engine (.claimSession r.id worker now) (st.afterClaims claims) =
      (.ok (0 : Nat), st.afterClaims claims) := by
  have hnot : r.id ∉ (st.queue.drop claims.length).map (·.id) := by
    rw [id_mem_drop_queue hids hr]
    omega
  have hcount := countP_claimable h hids r.id
  rw [if_neg hnot] at hcount
  have hsame := changeWhere_eq_self (List.countP_eq_zero.mp hcount) (SessionRow.claimed worker now)
  simp only [Store.engine, Statement.exec, changeSessions, hcount, hsame]

/-- The claims of a log are those whose candidate was still waiting. -/
theorem claim?_claimSession (h : st.ClaimedInOrder claims) (hids : (st.sessions.map (·.id)).Nodup)
    {j : Nat} {r : SessionRow} (hr : st.queue[j]? = some r) (i : Nat) (worker : String)
    (now : Stamp) :
    Pool.Entry.claim? ⟨i, .claimSession r.id worker now, st.afterClaims claims⟩ =
      if claims.length ≤ j then some ⟨i, r.id, worker, now⟩ else none := by
  have hany : ((st.afterClaims claims).sessions.any fun s => s.id == r.id && s.isClaimable) = true ↔
      claims.length ≤ j := by
    rw [List.any_eq_true, ← List.countP_pos_iff, countP_claimable h hids,
      ← id_mem_drop_queue hids hr]
    split <;> simp_all
  simp only [Pool.Entry.claim?, hany]

theorem ClaimedInOrder.concat (h : st.ClaimedInOrder claims) {r : SessionRow}
    (hr : st.queue[claims.length]? = some r) (i : Nat) (worker : String) (now : Stamp) :
    st.ClaimedInOrder (claims ++ [⟨i, r.id, worker, now⟩]) := by
  unfold ClaimedInOrder at h ⊢
  rw [List.map_append, h, List.length_append, List.length_singleton, List.take_add_one, hr]
  simp

/-- The first candidate of the queue is claimed. -/
theorem engine_claimSession_won (h : st.ClaimedInOrder claims)
    (hids : (st.sessions.map (·.id)).Nodup) {r : SessionRow}
    (hr : st.queue[claims.length]? = some r) (i : Nat) (worker : String) (now : Stamp) :
    Store.engine (.claimSession r.id worker now) (st.afterClaims claims) =
      (.ok (1 : Nat), st.afterClaims (claims ++ [⟨i, r.id, worker, now⟩])) := by
  have hmem := (id_mem_drop_queue hids hr (n := claims.length)).mpr le_rfl
  have hcount := countP_claimable h hids r.id
  rw [if_pos hmem] at hcount
  have hnodup := (h.concat hr i worker now).nodup hids
  have hrows : changeWhere (fun s => s.id == r.id && s.isClaimable) (SessionRow.claimed worker now)
      (st.afterClaims claims).sessions =
        (st.afterClaims (claims ++ [⟨i, r.id, worker, now⟩])).sessions := by
    simp only [changeWhere, afterClaims, List.map_map]
    refine List.map_congr_left fun s hs => ?_
    simp only [Function.comp_apply, SessionRow.id_afterClaims, SessionRow.isClaimable_afterClaims]
    by_cases hold : s.id ∈ claims.map (·.id)
    · obtain ⟨c, hc, hid⟩ := List.mem_map.mp hold
      have hcontains : (claims.map (·.id)).contains s.id = true := by simpa using hold
      rw [hcontains, SessionRow.afterClaims_of_mem (h.nodup hids) hc hid,
        SessionRow.afterClaims_of_mem hnodup (List.mem_append_left _ hc) hid]
      simp
    · have hcontains : (claims.map (·.id)).contains s.id = false := by simpa using hold
      rw [hcontains, SessionRow.afterClaims_of_not_mem hold]
      by_cases hid : s.id = r.id
      · have hsame : s = r :=
          List.inj_on_of_nodup_map hids hs (mem_queue_of_getElem? hr).1 hid
        have hnew : (⟨i, r.id, worker, now⟩ : Claim) ∈ claims ++ [⟨i, r.id, worker, now⟩] :=
          List.mem_append_right _ List.mem_cons_self
        rw [SessionRow.afterClaims_of_mem hnodup hnew hid.symm]
        simp [hsame, (mem_queue_of_getElem? hr).2]
      · rw [SessionRow.afterClaims_of_not_mem (by simpa [hid] using hold)]
        simp [hid]
  simp only [Store.engine, Statement.exec, changeSessions, hcount, hrows]
  rfl

/-- The session of a claim that took effect, as it is read afterwards. -/
theorem engine_findSession (h : st.ClaimedInOrder claims) (hids : (st.sessions.map (·.id)).Nodup)
    {c : Claim} (hc : c ∈ claims) {r : SessionRow} (hr : r ∈ st.sessions) (hid : r.id = c.id) :
    Store.engine (.findSession c.id) (st.afterClaims claims) =
      (.ok (some (r.claimed c.worker c.taken)), st.afterClaims claims) := by
  have hrow : r.afterClaims claims = r.claimed c.worker c.taken :=
    SessionRow.afterClaims_of_mem (h.nodup hids) hc hid.symm
  have hnodup : ((st.afterClaims claims).sessions.map (·.id)).Nodup := by
    simpa [afterClaims, Function.comp_def, SessionRow.id_afterClaims] using hids
  have hmem : r.claimed c.worker c.taken ∈ (st.afterClaims claims).sessions :=
    List.mem_map.mpr ⟨r, hr, hrow⟩
  have hfound : (st.afterClaims claims).session? c.id = some (r.claimed c.worker c.taken) :=
    find?_key hnodup hmem hid
  simp only [Store.engine, Statement.exec, hfound]

end Store

/-! ### A worker on its way -/

namespace Sessions

def found (id : String) :
    Except Failure (Option SessionRow) → Call (Except Failure (Option Session))
  | .error e => .done (.error e)
  | .ok none => .done (.error (.notFound .session id))
  | .ok (some row) =>
    match row.read with
    | .error e => .done (.error e)
    | .ok s => .done (.ok (some s))

def counted (id : String) : Except Failure Nat → Call (Except Failure (Option Session))
  | .error e => .done (.error e)
  | .ok rows => if rows != 1 then .again else .ask (.findSession id) (found id)

def chosen (worker : String) :
    Except Failure (Option String) → Call (Except Failure (Option Session))
  | .error e => .done (.error e)
  | .ok none => .done (.ok none)
  | .ok (some id) => .clock fun now => .ask (.claimSession id worker (.ofInstant now)) (counted id)

theorem claimNext_run {worker : String} (hworker : Text.isBlank worker = false) :
    (claimNext worker).run = .ask .oldestPending (chosen worker) := by
  unfold claimNext
  rw [hworker]
  refine congrArg (Call.ask .oldestPending) (funext fun candidate => ?_)
  rcases candidate with e | (_ | id)
  · rfl
  · rfl
  · refine congrArg Call.clock (funext fun now => ?_)
    refine congrArg (Call.ask (.claimSession id worker (.ofInstant now))) (funext fun rows => ?_)
    cases rows with
    | error e => rfl
    | ok rows =>
      by_cases hrows : rows = 1
      · subst hrows
        refine congrArg (Call.ask (.findSession id)) (funext fun row => ?_)
        rcases row with e | (_ | row)
        · rfl
        · rfl
        · change Call.bind (Rows.readOne SessionRow.read (some row)).run _ =
            found id (.ok (some row))
          cases hread : row.read with
          | error e =>
            have hrow : Rows.readOne SessionRow.read (some row) = Service.settle (.error e) :=
              congrArg Service.settle (Service.mapM_some_error hread)
            simp only [found, hread, hrow]
            rfl
          | ok s =>
            have hrow : Rows.readOne SessionRow.read (some row) = Service.settle (.ok (some s)) :=
              congrArg Service.settle (Service.mapM_some_ok hread)
            simp only [found, hread, hrow]
            rfl
      · have hlost : (rows != 1) = true := by simpa using hrows
        change (if (rows != 1) = true then Service.again else _ : Service (Option Session)).run = _
        rw [if_pos hlost]
        simp only [counted, hlost, if_true]
        rfl

/-- Where a worker is, at place `i` of the schedule and after so many turns, when these claims have
taken effect on the store. Until it has claimed, its turns are bounded by the claims that it has
seen. -/
inductive Claiming (st : Store) (schedule : List (Nat × Instant)) (claims : List Claim)
    (worker : String) (i turns : Nat) : Call (Except Failure (Option Session)) → Prop
  | start (seen : Nat) (hseen : seen ≤ claims.length) (hturns : turns ≤ 4 * seen)
      (hfree : ∀ c ∈ claims, c.caller ≠ i) :
      Claiming st schedule claims worker i turns (.ask .oldestPending (chosen worker))
  | chosen (j : Nat) (r : SessionRow) (hr : st.queue[j]? = some r) (hj : j ≤ claims.length)
      (hturns : turns ≤ 4 * j + 1) (hfree : ∀ c ∈ claims, c.caller ≠ i) :
      Claiming st schedule claims worker i turns
        (.clock fun now => .ask (.claimSession r.id worker (.ofInstant now)) (counted r.id))
  | dated (j : Nat) (r : SessionRow) (now : Instant) (hnow : (i, now) ∈ schedule)
      (hr : st.queue[j]? = some r) (hj : j ≤ claims.length)
      (hturns : turns ≤ 4 * j + 2) (hfree : ∀ c ∈ claims, c.caller ≠ i) :
      Claiming st schedule claims worker i turns
        (.ask (.claimSession r.id worker (.ofInstant now)) (counted r.id))
  | lost (j : Nat) (hj : j < claims.length) (hturns : turns ≤ 4 * j + 3)
      (hfree : ∀ c ∈ claims, c.caller ≠ i) : Claiming st schedule claims worker i turns .again
  | won (j : Nat) (r : SessionRow) (c : Claim) (hr : st.queue[j]? = some r) (hc : c ∈ claims)
      (hcaller : c.caller = i) (hid : c.id = r.id) (hturns : turns ≤ 4 * j + 3) :
      Claiming st schedule claims worker i turns (.ask (.findSession r.id) (found r.id))
  | served (r : SessionRow) (c : Claim) (hr : r ∈ st.queue) (hc : c ∈ claims)
      (hcaller : c.caller = i) (hid : c.id = r.id) :
      Claiming st schedule claims worker i turns
        (.done (.ok (some ((r.claimed c.worker c.taken).map Stamp.named))))
  | empty (hall : claims.length = st.queue.length) (hfree : ∀ c ∈ claims, c.caller ≠ i) :
      Claiming st schedule claims worker i turns (.done (.ok none))

/-- Claims of other workers leave a worker where it is. -/
theorem Claiming.append {st : Store} {schedule : List (Nat × Instant)} {claims new : List Claim}
    {worker : String} {i turns : Nat} {rest : Call (Except Failure (Option Session))}
    (h : Claiming st schedule claims worker i turns rest) (hnew : ∀ c ∈ new, c.caller ≠ i)
    (hbound : (claims ++ new).length ≤ st.queue.length) :
    Claiming st schedule (claims ++ new) worker i turns rest := by
  have hlength : claims.length ≤ (claims ++ new).length := by simp
  have hfree (hold : ∀ c ∈ claims, c.caller ≠ i) : ∀ c ∈ claims ++ new, c.caller ≠ i := by
    intro c hc
    rcases List.mem_append.mp hc with hc | hc
    · exact hold c hc
    · exact hnew c hc
  cases h with
  | start seen hseen hturns hold => exact .start seen (hseen.trans hlength) hturns (hfree hold)
  | chosen j r hr hj hturns hold => exact .chosen j r hr (hj.trans hlength) hturns (hfree hold)
  | dated j r now hnow hr hj hturns hold =>
    exact .dated j r now hnow hr (hj.trans hlength) hturns (hfree hold)
  | lost j hj hturns hold => exact .lost j (lt_of_lt_of_le hj hlength) hturns (hfree hold)
  | won j r c hr hc hcaller hid hturns =>
    exact .won j r c hr (List.mem_append_left _ hc) hcaller hid hturns
  | served r c hr hc hcaller hid => exact .served r c hr (List.mem_append_left _ hc) hcaller hid
  | empty hall hold => exact .empty (by omega) (hfree hold)

def turns (made : List (Nat × Instant)) (i : Nat) : Nat := made.countP (·.1 == i)

theorem turns_concat_self (made : List (Nat × Instant)) (i : Nat) (now : Instant) :
    turns (made ++ [(i, now)]) i = turns made i + 1 := by
  simp [turns, List.countP_append]

theorem turns_concat_of_ne (made : List (Nat × Instant)) {i j : Nat} (h : i ≠ j) (now : Instant) :
    turns (made ++ [(i, now)]) j = turns made j := by
  simp [turns, List.countP_append, h]

structure Competing (st : Store) (workers : List String) (schedule made : List (Nat × Instant))
    (claims : List Claim) (p : Pool (Except Failure (Option Session))) (after : Store) : Prop where
  length : p.length = workers.length
  inOrder : st.ClaimedInOrder claims
  callers : (claims.map (·.caller)).Nodup
  owners : ∀ c ∈ claims, workers[c.caller]? = some c.worker
  readings : ∀ c ∈ claims, ∃ now, (c.caller, now) ∈ schedule ∧ c.taken = .ofInstant now
  store : after = st.afterClaims claims
  flights : ∀ i f, p[i]? = some f → ∃ worker, workers[i]? = some worker ∧
    f.call = .ask .oldestPending (chosen worker) ∧
    Claiming st schedule claims worker i (turns made i) f.rest

section
variable {st after after' : Store} {workers : List String} {schedule made : List (Nat × Instant)}
  {claims : List Claim} {p p' : Pool (Except Failure (Option Session))} {i : Nat}
  {f : Flight (Except Failure (Option Session))} {rest : Call (Except Failure (Option Session))}
  {worker : String} {now : Instant}

theorem Competing.set (h : Competing st workers schedule made claims p after) (new : List Claim)
    (now : Instant) (hworker : workers[i]? = some worker)
    (hcall : f.call = .ask .oldestPending (chosen worker))
    (hnew : ∀ c ∈ new, c.caller = i ∧ c.worker = worker ∧
      ∃ now, (c.caller, now) ∈ schedule ∧ c.taken = .ofInstant now)
    (horder : st.ClaimedInOrder (claims ++ new))
    (hcallers : ((claims ++ new).map (·.caller)).Nodup)
    (hrest : Claiming st schedule (claims ++ new) worker i (turns made i + 1) rest) :
    Competing st workers schedule (made ++ [(i, now)]) (claims ++ new) (p.set i ⟨f.call, rest⟩)
      (st.afterClaims (claims ++ new)) where
  length := by rw [List.length_set, h.length]
  inOrder := horder
  callers := hcallers
  owners := by
    refine List.forall_mem_append.mpr ⟨h.owners, fun c hc => ?_⟩
    obtain ⟨hcaller, hw, _⟩ := hnew c hc
    rw [hcaller, hw]
    exact hworker
  readings := List.forall_mem_append.mpr ⟨h.readings, fun c hc => (hnew c hc).2.2⟩
  store := rfl
  flights := by
    intro j g hg
    rcases Pool.getElem?_set_cases hg with ⟨rfl, rfl⟩ | ⟨hij, hold⟩
    · exact ⟨worker, hworker, hcall, by rwa [turns_concat_self]⟩
    · obtain ⟨w, hw, hcall, hclaiming⟩ := h.flights j g hold
      refine ⟨w, hw, hcall, ?_⟩
      rw [turns_concat_of_ne made hij]
      refine hclaiming.append (fun c hc => ?_) horder.length_le
      rw [(hnew c hc).1]
      exact hij

/-- A step that claims nothing. -/
theorem Competing.set_quiet (h : Competing st workers schedule made claims p after)
    (hworker : workers[i]? = some worker) (hcall : f.call = .ask .oldestPending (chosen worker))
    (hrest : Claiming st schedule claims worker i (turns made i + 1) rest) :
    Competing st workers schedule (made ++ [(i, now)]) (claims ++ []) (p.set i ⟨f.call, rest⟩)
      (st.afterClaims claims) := by
  have hquiet : claims ++ ([] : List Claim) = claims := List.append_nil _
  have hset := h.set [] now hworker hcall (by simp) (by rw [hquiet]; exact h.inOrder)
    (by rw [hquiet]; exact h.callers) (by rw [hquiet]; exact hrest)
  rwa [hquiet] at hset ⊢

/-- A turn of a worker that is done changes nothing. -/
theorem Competing.idle (h : Competing st workers schedule made claims p after)
    (hdone : ∀ f, p[i]? = some f → ∃ a, f.rest = .done a) :
    Competing st workers schedule (made ++ [(i, now)]) claims p after where
  length := h.length
  inOrder := h.inOrder
  callers := h.callers
  owners := h.owners
  readings := h.readings
  store := h.store
  flights := by
    intro j g hg
    obtain ⟨worker, hworker, hcall, hclaiming⟩ := h.flights j g hg
    refine ⟨worker, hworker, hcall, ?_⟩
    by_cases hij : i = j
    · subst hij
      obtain ⟨a, hrest⟩ := hdone g hg
      rw [hrest] at hclaiming ⊢
      cases hclaiming with
      | served r c hr hc hcaller hid => exact .served r c hr hc hcaller hid
      | empty hall hfree => exact .empty hall hfree
    · rwa [turns_concat_of_ne made hij]

/-- A claim takes effect exactly if its candidate is still the next session of the queue. -/
theorem Competing.claim_step (hids : (st.sessions.map (·.id)).Nodup)
    (h : Competing st workers schedule made claims p after) (now : Instant)
    (hworker : workers[i]? = some worker) (hcall : f.call = .ask .oldestPending (chosen worker))
    {j : Nat} {r : SessionRow} {date : Instant} (hdate : (i, date) ∈ schedule)
    (hr : st.queue[j]? = some r) (hj : j ≤ claims.length) (hturns : turns made i ≤ 4 * j + 2)
    (hfree : ∀ c ∈ claims, c.caller ≠ i) :
    let s : Statement := .claimSession r.id worker (.ofInstant date)
    Competing st workers schedule (made ++ [(i, now)])
      (claims ++ [⟨i, s, st.afterClaims claims⟩].filterMap Pool.Entry.claim?)
      (p.set i ⟨f.call, counted r.id (Store.engine s (st.afterClaims claims)).1⟩)
      (Store.engine s (st.afterClaims claims)).2 := by
  have horder := h.inOrder
  intro s
  by_cases hlost : j < claims.length
  · have hentry : Pool.Entry.claim? ⟨i, s, st.afterClaims claims⟩ = none := by
      rw [Store.claim?_claimSession horder hids hr, if_neg (by omega)]
    rw [Store.engine_claimSession_lost horder hids hr hlost, List.filterMap_cons, hentry]
    exact h.set_quiet hworker hcall (.lost j hlost (by omega) hfree)
  · -- No claim has come before, so the candidate is the first that still waits.
    have hj : j = claims.length := by omega
    subst hj
    have hentry : Pool.Entry.claim? ⟨i, s, st.afterClaims claims⟩ =
        some ⟨i, r.id, worker, .ofInstant date⟩ := by
      rw [Store.claim?_claimSession horder hids hr, if_pos le_rfl]
    rw [Store.engine_claimSession_won horder hids hr i, List.filterMap_cons, hentry]
    refine h.set _ now hworker hcall ?_ (horder.concat hr _ _ _) ?_ ?_
    · exact List.forall_mem_singleton.mpr ⟨rfl, rfl, date, hdate, rfl⟩
    · rw [List.filterMap_nil, List.map_append, List.map_singleton, List.nodup_append]
      refine ⟨h.callers, by simp, ?_⟩
      intro caller hcaller self hself hsame
      obtain ⟨c, hc, rfl⟩ := List.mem_map.mp hcaller
      exact hfree c hc (hsame.trans (List.mem_singleton.mp hself))
    · exact .won claims.length r _ hr (List.mem_append_right _ List.mem_cons_self) rfl rfl
        (by omega)

variable (hids : (st.sessions.map (·.id)).Nodup) (hread : ∀ r ∈ st.queue, r.Readable)
  (hclock : ∀ x ∈ schedule, x.2.Storable)
include hids hread hclock

/-- A statement of a worker that has not come to its end. -/
theorem Competing.ask_step (h : Competing st workers schedule made claims p after) (now : Instant)
    (hworker : workers[i]? = some worker) (hcall : f.call = .ask .oldestPending (chosen worker))
    {s : Statement} {next : Except Failure s.Answer → Call (Except Failure (Option Session))}
    (hclaiming : Claiming st schedule claims worker i (turns made i) (.ask s next)) :
    Competing st workers schedule (made ++ [(i, now)])
      (claims ++ [⟨i, s, st.afterClaims claims⟩].filterMap Pool.Entry.claim?)
      (p.set i ⟨f.call, next (Store.engine s (st.afterClaims claims)).1⟩)
      (Store.engine s (st.afterClaims claims)).2 := by
  have horder := h.inOrder
  cases hclaiming with
  | start seen hseen hturns hfree =>
    rw [Store.engine_oldestPending horder hids]
    refine h.set_quiet hworker hcall ?_
    cases hnext : st.queue[claims.length]? with
    | none =>
      have hall : claims.length = st.queue.length := by
        have hle := horder.length_le
        have hge := List.getElem?_eq_none_iff.mp hnext
        omega
      exact .empty hall hfree
    | some r => exact .chosen claims.length r hnext le_rfl (by omega) hfree
  | dated j r date hdate hr hj hturns hfree =>
    exact h.claim_step hids now hworker hcall hdate hr hj hturns hfree
  | won j r c hr hc hcaller hid hturns =>
    have hmem := List.mem_of_getElem? hr
    have hsession := (Store.mem_queue_of_getElem? hr).1
    have htaken : c.taken.Readable := by
      obtain ⟨date, hdate, htaken⟩ := h.readings c hc
      have hstorable : date.Storable := hclock (c.caller, date) hdate
      rw [htaken]
      exact Stamp.readable_ofInstant hstorable
    have hrow : (r.claimed c.worker c.taken).Readable := (hread r hmem).claimed htaken c.worker
    rw [← hid, Store.engine_findSession horder hids hc hsession hid.symm]
    refine h.set_quiet hworker hcall ?_
    simp only [found, SessionRow.read_eq_ok hrow]
    exact .served r c hmem hc hcaller hid

/-- One step of one of the workers. -/
theorem Competing.moves {entry : Option (Pool.Entry Store)} (hnow : (i, now) ∈ schedule)
    (h : Competing st workers schedule made claims p after)
    (hmoves : Pool.Moves Store.engine now i p after entry p' after') :
    Competing st workers schedule (made ++ [(i, now)])
      (claims ++ entry.toList.filterMap Pool.Entry.claim?) p' after' := by
  cases hmoves with
  | idle hdone =>
    rw [Option.toList_none, List.filterMap_nil, List.append_nil]
    exact h.idle hdone
  | again f hf hrest =>
    obtain ⟨worker, hworker, hcall, hclaiming⟩ := h.flights i f hf
    rw [hrest] at hclaiming
    rw [h.store]
    cases hclaiming with
    | lost j hj hturns hfree =>
      refine h.set_quiet hworker hcall ?_
      rw [hcall]
      exact .start (j + 1) hj (by omega) hfree
  | clock f next hf hrest =>
    obtain ⟨worker, hworker, hcall, hclaiming⟩ := h.flights i f hf
    rw [hrest] at hclaiming
    rw [h.store]
    cases hclaiming with
    | chosen j r hr hj hturns hfree =>
      exact h.set_quiet hworker hcall (.dated j r now hnow hr hj (by omega) hfree)
  | ask f s next hf hrest =>
    obtain ⟨worker, hworker, hcall, hclaiming⟩ := h.flights i f hf
    rw [hrest] at hclaiming
    rw [h.store]
    exact h.ask_step hids hread hclock now hworker hcall hclaiming

end

def claimants (workers : List String) : Pool (Except Failure (Option Session)) :=
  workers.map fun worker => Flight.start (claimNext worker).run

theorem Competing.run {st : Store} {workers : List String} (hids : (st.sessions.map (·.id)).Nodup)
    (hread : ∀ r ∈ st.queue, r.Readable) (hworkers : ∀ w ∈ workers, Text.isBlank w = false)
    {schedule : List (Nat × Instant)} (hclock : ∀ x ∈ schedule, x.2.Storable) :
    Competing st workers schedule schedule
      ((Pool.log Store.engine schedule (claimants workers) st).filterMap Pool.Entry.claim?)
      (Pool.run Store.engine schedule (claimants workers) st).1
      (Pool.run Store.engine schedule (claimants workers) st).2 := by
  refine Pool.run_induction Store.engine schedule (claimants workers) st
    (motive := fun made log p after =>
      Competing st workers schedule made (log.filterMap Pool.Entry.claim?) p after) ?_ ?_
  · refine ⟨by simp [claimants], rfl, .nil, by simp, by simp, ?_, fun i f hf => ?_⟩
    · have hsame : SessionRow.afterClaims [] = id := rfl
      simp [Store.afterClaims, hsame]
    · obtain ⟨worker, hworker, rfl⟩ : ∃ w, workers[i]? = some w ∧
          Flight.start (claimNext w).run = f := by simpa [claimants] using hf
      have hrun := claimNext_run (hworkers worker (List.mem_of_getElem? hworker))
      refine ⟨worker, hworker, hrun, ?_⟩
      change Claiming st schedule [] worker i (turns [] i) (claimNext worker).run
      rw [hrun]
      exact .start 0 le_rfl le_rfl (by simp)
  · intro made log p after i now entry p' after' hmem h hmoves
    have hafter := h.moves hids hread hclock hmem hmoves
    rw [← List.filterMap_append] at hafter
    exact hafter

section
variable {st after : Store} {workers : List String} {schedule made : List (Nat × Instant)}
  {claims : List Claim} {p : Pool (Except Failure (Option Session))}

def givenTo? (f : Flight (Except Failure (Option Session))) : Option String :=
  (f.answer?.bind fun a => a.toOption.join).map (·.id)

theorem Competing.answer (h : Competing st workers schedule made claims p after) {i : Nat}
    {a : Except Failure (Option Session)} (ha : p[i]?.bind (·.answer?) = some a) :
    (∃ c ∈ claims, c.caller = i ∧ ∃ r ∈ st.queue, r.id = c.id ∧
      a = .ok (some ((r.claimed c.worker c.taken).map Stamp.named))) ∨
    ((∀ c ∈ claims, c.caller ≠ i) ∧ claims.length = st.queue.length ∧ a = .ok none) := by
  obtain ⟨f, hf, hanswer⟩ := Option.bind_eq_some_iff.mp ha
  obtain ⟨worker, hworker, _, hclaiming⟩ := h.flights i f hf
  obtain ⟨call, rest⟩ := f
  cases hclaiming with
  | served r c hr hc hcaller hid =>
    cases hanswer
    exact .inl ⟨c, hc, hcaller, r, hr, hid.symm, rfl⟩
  | empty hall hfree =>
    cases hanswer
    exact .inr ⟨hfree, hall, rfl⟩
  | _ => cases hanswer

/-- A worker that has had enough turns has its answer. -/
theorem Competing.isSome_answer (h : Competing st workers schedule made claims p after) {i : Nat}
    (hi : i < workers.length) (hturns : 4 * st.queue.length < turns made i) :
    (p[i]?.bind (·.answer?)).isSome = true := by
  have hlength : i < p.length := by rw [h.length]; exact hi
  obtain ⟨f, hf⟩ : ∃ f, p[i]? = some f := ⟨_, List.getElem?_eq_getElem hlength⟩
  obtain ⟨worker, hworker, _, hclaiming⟩ := h.flights i f hf
  have hbound := h.inOrder.length_le
  rw [hf, Option.bind_some]
  obtain ⟨call, rest⟩ := f
  cases hclaiming with
  | start seen hseen hseenTurns => omega
  | chosen j r hr hj hjTurns =>
    have hlt := (List.getElem?_eq_some_iff.mp hr).1
    omega
  | dated j r now hnow hr hj hjTurns =>
    have hlt := (List.getElem?_eq_some_iff.mp hr).1
    omega
  | lost j hj hjTurns => omega
  | won j r c hr hc hcaller hid hjTurns =>
    have hlt := (List.getElem?_eq_some_iff.mp hr).1
    omega
  | served => rfl
  | empty => rfl

theorem Competing.caller_lt (h : Competing st workers schedule made claims p after) {c : Claim}
    (hc : c ∈ claims) : c.caller < workers.length :=
  (List.getElem?_eq_some_iff.mp (h.owners c hc)).1

theorem Competing.length_le (h : Competing st workers schedule made claims p after) :
    claims.length ≤ workers.length := by
  have hsub : claims.map (·.caller) ⊆ List.range workers.length := by
    intro i hi
    obtain ⟨c, hc, rfl⟩ := List.mem_map.mp hi
    exact List.mem_range.mpr (h.caller_lt hc)
  simpa using (List.Nodup.subperm h.callers hsub).length_le

/-- When all workers have their answers, as many claims took effect as there were workers, or as
there were sessions if these were fewer. -/
theorem Competing.length_eq (h : Competing st workers schedule made claims p after)
    (hall : ∀ i < workers.length, (p[i]?.bind (·.answer?)).isSome = true) :
    claims.length = min workers.length st.queue.length := by
  have hle := h.length_le
  have hqueue := h.inOrder.length_le
  by_cases hempty : claims.length = st.queue.length
  · omega
  · have hsub : List.range workers.length ⊆ claims.map (·.caller) := by
      intro i hi
      obtain ⟨a, ha⟩ := Option.isSome_iff_exists.mp (hall i (List.mem_range.mp hi))
      rcases h.answer ha with ⟨c, hc, hcaller, _⟩ | ⟨_, hlength, _⟩
      · exact List.mem_map.mpr ⟨c, hc, hcaller⟩
      · exact absurd hlength hempty
    have hge := (List.Nodup.subperm List.nodup_range hsub).length_le
    simp only [List.length_range, List.length_map] at hge
    omega

theorem Competing.givenTo?_iff (h : Competing st workers schedule made claims p after) {i : Nat}
    {f : Flight (Except Failure (Option Session))} (hf : p[i]? = some f)
    (hanswer : f.answer?.isSome = true) (id : String) :
    givenTo? f = some id ↔ ∃ c ∈ claims, c.caller = i ∧ c.id = id := by
  obtain ⟨a, ha⟩ := Option.isSome_iff_exists.mp hanswer
  rcases h.answer (i := i) (a := a) (by rw [hf, Option.bind_some, ha]) with
    ⟨c, hc, hcaller, r, _, hid, rfl⟩ | ⟨hfree, _, rfl⟩
  · have hgiven : givenTo? f = some c.id := by
      rw [givenTo?, ha]
      exact congrArg some hid
    rw [hgiven, Option.some.injEq]
    constructor
    · intro hsame
      exact ⟨c, hc, hcaller, hsame⟩
    · intro hother
      obtain ⟨d, hd, hdcaller, rfl⟩ := hother
      rw [List.inj_on_of_nodup_map h.callers hc hd (hcaller.trans hdcaller.symm)]
  · have hgiven : givenTo? f = none := by
      rw [givenTo?, ha]
      rfl
    rw [hgiven]
    constructor
    · intro hnone
      cases hnone
    · intro hclaimed
      obtain ⟨c, hc, hcaller, _⟩ := hclaimed
      exact absurd hcaller (hfree c hc)

/-- When all workers have their answers, the sessions they were given are those that were
claimed. -/
theorem Competing.given_perm (h : Competing st workers schedule made claims p after)
    (hids : (st.sessions.map (·.id)).Nodup)
    (hall : ∀ i < workers.length, (p[i]?.bind (·.answer?)).isSome = true) :
    (p.filterMap givenTo?).Perm (claims.map (·.id)) := by
  have hanswer : ∀ (i : Nat) (f : Flight _), p[i]? = some f → f.answer?.isSome = true := by
    intro i f hf
    have hi : i < workers.length := by
      rw [← h.length]
      exact (List.getElem?_eq_some_iff.mp hf).1
    simpa [hf] using hall i hi
  have hclaims := h.inOrder.nodup hids
  rw [List.perm_ext_iff_of_nodup _ hclaims]
  · intro id
    rw [List.mem_filterMap, List.mem_map]
    constructor
    · intro hflight
      obtain ⟨f, hmem, hgiven⟩ := hflight
      obtain ⟨i, hf⟩ := List.mem_iff_getElem?.mp hmem
      obtain ⟨c, hc, _, hid⟩ := (h.givenTo?_iff hf (hanswer i f hf) id).mp hgiven
      exact ⟨c, hc, hid⟩
    · intro hclaim
      obtain ⟨c, hc, hid⟩ := hclaim
      have hlt : c.caller < p.length := by
        rw [h.length]
        exact h.caller_lt hc
      have hf := List.getElem?_eq_getElem hlt
      exact ⟨_, List.getElem_mem hlt, (h.givenTo?_iff hf (hanswer _ _ hf) id).mpr ⟨c, hc, rfl, hid⟩⟩
  · rw [List.Nodup, List.pairwise_filterMap, List.pairwise_iff_getElem]
    intro i j hi hj hij id hid id' hid' heq
    subst heq
    have hfi := List.getElem?_eq_getElem hi
    have hfj := List.getElem?_eq_getElem hj
    obtain ⟨c, hc, rfl, hcid⟩ := (h.givenTo?_iff hfi (hanswer _ _ hfi) id).mp hid
    obtain ⟨d, hd, rfl, hdid⟩ := (h.givenTo?_iff hfj (hanswer _ _ hfj) id).mp hid'
    rw [List.inj_on_of_nodup_map hclaims hc hd (hcid.trans hdid.symm)] at hij
    exact lt_irrefl _ hij

end

/-- What has come of workers that claim side by side, wherever the run of their schedule has got to:
with these claims that took effect, these calls, and this store. -/
structure ServedInOrder (st : Store) (workers : List String) (schedule : List (Nat × Instant))
    (claims : List Claim) (p : Pool (Except Failure (Option Session))) (after : Store) : Prop where
  fromFront : claims.map (·.id) = (st.queue.take claims.length).map (·.id)
  sessions : (claims.map (·.id)).Nodup
  callers : (claims.map (·.caller)).Nodup
  owners : ∀ c ∈ claims, workers[c.caller]? = some c.worker
  readings : ∀ c ∈ claims, ∃ now, (c.caller, now) ∈ schedule ∧ c.taken = .ofInstant now
  store : after = st.afterClaims claims
  claimed : ∀ c ∈ claims, ∀ r ∈ st.sessions, r.id = c.id → r.afterClaims claims =
    { r with
      status := .inProgress
      podId := some c.worker
      startedAt := some c.taken
      lastInteractionAt := some c.taken }
  spared : ∀ r ∈ st.sessions, r.id ∉ claims.map (·.id) → r.afterClaims claims = r
  answers : ∀ i a, p[i]?.bind (·.answer?) = some a →
    (∃ c ∈ claims, c.caller = i ∧ ∃ r ∈ st.queue, r.id = c.id ∧
      a = .ok (some ((r.afterClaims claims).map Stamp.named))) ∨
    ((∀ c ∈ claims, c.caller ≠ i) ∧ claims.length = st.queue.length ∧ a = .ok none)
  progress : ∀ i < workers.length, 4 * st.queue.length < turns schedule i →
    (p[i]?.bind (·.answer?)).isSome = true
  shared : (∀ i < workers.length, (p[i]?.bind (·.answer?)).isSome = true) →
    claims.length = min workers.length st.queue.length ∧
    (p.filterMap givenTo?).Perm
      ((st.queue.take (min workers.length st.queue.length)).map (·.id))

/-- Workers that claim side by side on a store, in whatever order their steps come. The claims take
effect from the front of the queue, at most one for each worker, and change nothing but the claimed
sessions. A worker whose claim took effect is answered with that session, any other that is answered
is told that nothing waits, and nothing does. Each worker that gets enough turns is answered, and
when all are, they share out the front of the queue. -/
theorem claimants_served_in_order (st : Store) (workers : List String)
    (schedule : List (Nat × Instant)) (hids : (st.sessions.map (·.id)).Nodup)
    (hread : ∀ r ∈ st.queue, r.Readable) (hworkers : ∀ w ∈ workers, Text.isBlank w = false)
    (hclock : ∀ x ∈ schedule, x.2.Storable) :
    ServedInOrder st workers schedule
      ((Pool.log Store.engine schedule (claimants workers) st).filterMap Pool.Entry.claim?)
      (Pool.run Store.engine schedule (claimants workers) st).1
      (Pool.run Store.engine schedule (claimants workers) st).2 := by
  have h := Competing.run hids hread hworkers hclock
  have hnodup := h.inOrder.nodup hids
  refine ⟨h.inOrder, hnodup, h.callers, h.owners, h.readings, h.store, ?_, ?_, fun i a ha => ?_,
    fun i hi hturns => h.isSome_answer hi hturns, fun hall => ?_⟩
  · exact fun c hc r _ hid => SessionRow.afterClaims_of_mem hnodup hc hid.symm
  · exact fun r _ hnone => SessionRow.afterClaims_of_not_mem hnone
  · rcases h.answer ha with ⟨c, hc, hcaller, r, hr, hid, hanswer⟩ | hnone
    · rw [← SessionRow.afterClaims_of_mem hnodup hc hid.symm] at hanswer
      exact .inl ⟨c, hc, hcaller, r, hr, hid, hanswer⟩
    · exact .inr hnone
  · have hlength := h.length_eq hall
    have hperm := h.given_perm hids hall
    rw [h.inOrder, hlength] at hperm
    exact ⟨hlength, hperm⟩

def twoWaiting : Store :=
  let alert : Submission := { alertData := "disk full", alertType := "disk", chainId := "default" }
  { sessions := [(alert.session "a" ⟨0⟩).row, (alert.session "b" ⟨1⟩).row] }

/-- Two workers with nine turns each share two sessions. -/
theorem two_claimants_served : (twoWaiting.sessions.map (·.id)).Nodup ∧
    (∀ r ∈ twoWaiting.queue, r.Readable) ∧ (∀ w ∈ ["w1", "w2"], Text.isBlank w = false) ∧
    (∀ x ∈ Pool.inTurn 2 9 ⟨2⟩, x.2.Storable) ∧
    ((Pool.log Store.engine (Pool.inTurn 2 9 ⟨2⟩) (claimants ["w1", "w2"]) twoWaiting).filterMap
      Pool.Entry.claim?).length = 2 := by
  have hids : (twoWaiting.sessions.map (·.id)).Nodup := by decide
  have hread : ∀ r ∈ twoWaiting.queue, r.Readable := by
    intro r hr
    have hmem := (List.mem_filter.mp (twoWaiting.queue_perm.mem_iff.mp hr)).1
    have htimes : Instant.Storable ⟨0⟩ ∧ Instant.Storable ⟨1⟩ := by decide
    rcases List.mem_pair.mp hmem with rfl | rfl
    · exact ⟨Stamp.readable_ofInstant htimes.1, Stamp.readable_none, Stamp.readable_none,
        Stamp.readable_none, Stamp.readable_none⟩
    · exact ⟨Stamp.readable_ofInstant htimes.2, Stamp.readable_none, Stamp.readable_none,
        Stamp.readable_none, Stamp.readable_none⟩
  have hworkers : ∀ w ∈ ["w1", "w2"], Text.isBlank w = false := by decide
  have hclock : ∀ x ∈ Pool.inTurn 2 9 ⟨2⟩, Instant.Storable x.2 := by decide
  have hqueue : twoWaiting.queue.length = 2 := by
    rw [twoWaiting.queue_perm.length_eq]
    decide
  have hserved := claimants_served_in_order twoWaiting ["w1", "w2"] (Pool.inTurn 2 9 ⟨2⟩) hids hread
    hworkers hclock
  have hshared := hserved.shared fun i hi => hserved.progress i hi (by
    rw [hqueue]
    have hi : i < 2 := hi
    interval_cases i <;> decide)
  rw [hqueue] at hshared
  exact ⟨hids, hread, hworkers, hclock, hshared.1⟩

end Sessions
end AlertDesk
