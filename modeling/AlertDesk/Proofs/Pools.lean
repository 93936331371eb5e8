import AlertDesk.Call
import Mathlib.Data.List.Forall2
import Mathlib.Data.List.Induction

/-!
What happens in a pool. A run leaves a log with one entry for each statement that was carried out,
under the place of its call and with the state that it met. Invariants of a run follow by
induction on its moves; an invariant of the state alone follows from the statements that the calls
may ask.
-/
namespace AlertDesk

/-- The call has returned, and not because the store failed. -/
def Flight.isSettled {α : Type} (f : Flight (Except Failure α)) : Bool :=
  match f.rest with
  | .done (.ok _) => true
  | .done (.error e) => !e.isRetryable
  | _ => false

theorem Flight.isSettled_iff {α : Type} {f : Flight (Except Failure α)} :
    f.isSettled = true ↔ ∃ a, f.rest = .done a ∧ ∀ e, a = .error e → e.isRetryable = false := by
  unfold isSettled
  split
  · next a hrest => simp [hrest]
  · next e hrest => simp [hrest]
  · next hok herror =>
    refine iff_of_false Bool.false_ne_true ?_
    intro hdone
    obtain ⟨a, ha, _⟩ := hdone
    cases a with
    | ok a => exact hok a ha
    | error e => exact herror e ha

namespace Pool

variable {α σ : Type}

structure Entry (σ : Type) where
  caller : Nat
  statement : Statement
  before : σ

def asked? (i : Nat) (p : Pool α) (st : σ) : Option (Entry σ) :=
  match p[i]? with
  | some ⟨_, .ask s _⟩ => some ⟨i, s, st⟩
  | _ => none

def log (engine : Engine σ) : List (Nat × Instant) → Pool α → σ → List (Entry σ)
  | [], _, _ => []
  | (i, now) :: schedule, p, st =>
    (p.asked? i st).toList ++
      log engine schedule (p.step engine now i st).1 (p.step engine now i st).2

inductive Moves (engine : Engine σ) (now : Instant) (i : Nat) (p : Pool α) (st : σ) :
    Option (Entry σ) → Pool α → σ → Prop
  | idle (hdone : ∀ f, p[i]? = some f → ∃ a, f.rest = .done a) :
      Moves engine now i p st none p st
  | ask (f : Flight α) (s : Statement) (next : Except Failure s.Answer → Call α)
      (hf : p[i]? = some f) (hrest : f.rest = .ask s next) :
      Moves engine now i p st (some ⟨i, s, st⟩)
        (p.set i ⟨f.call, next (engine s st).1⟩) (engine s st).2
  | clock (f : Flight α) (next : Instant → Call α)
      (hf : p[i]? = some f) (hrest : f.rest = .clock next) :
      Moves engine now i p st none (p.set i ⟨f.call, next now⟩) st
  | again (f : Flight α) (hf : p[i]? = some f) (hrest : f.rest = .again) :
      Moves engine now i p st none (p.set i ⟨f.call, f.call⟩) st

theorem moves_step (engine : Engine σ) (now : Instant) (i : Nat) (p : Pool α) (st : σ) :
    Moves engine now i p st (p.asked? i st) (p.step engine now i st).1
      (p.step engine now i st).2 := by
  cases hf : p[i]? with
  | none =>
    have hidle : Moves engine now i p st none p st := .idle (by simp [hf])
    simpa [asked?, step, hf] using hidle
  | some f =>
    obtain ⟨call, rest⟩ := f
    cases rest with
    | done a =>
      have hset : p.set i ⟨call, .done a⟩ = p := by
        obtain ⟨hi, hget⟩ := List.getElem?_eq_some_iff.mp hf
        rw [← hget, List.set_getElem_self]
      have hidle : Moves engine now i p st none p st := .idle (by simp [hf])
      simpa [asked?, step, Flight.step, hf, hset] using hidle
    | ask s next => simpa [asked?, step, Flight.step, hf] using Moves.ask _ s next hf rfl
    | clock next => simpa [asked?, step, Flight.step, hf] using Moves.clock _ next hf rfl
    | again => simpa [asked?, step, Flight.step, hf] using Moves.again _ hf rfl

/-- After a call is replaced, each is the new one or stood there before. -/
theorem getElem?_set_cases {p : Pool α} {i j : Nat} {new g : Flight α}
    (h : (p.set i new)[j]? = some g) : i = j ∧ g = new ∨ i ≠ j ∧ p[j]? = some g := by
  by_cases hij : i = j
  · subst hij
    rw [List.getElem?_set_self'] at h
    obtain ⟨_, _, hg⟩ := Option.map_eq_some_iff.mp h
    exact .inl ⟨rfl, hg.symm⟩
  · rw [List.getElem?_set_ne hij] at h
    exact .inr ⟨hij, h⟩

/-- A step moves the call whose turn it is, and no other. -/
theorem getElem?_step {engine : Engine σ} {p : Pool α} {st : σ} {i : Nat} {f : Flight α}
    (hf : p[i]? = some f) (j : Nat) (now : Instant) :
    (p.step engine now j st).1[i]? = some (if j = i then (f.step engine now st).1 else f) := by
  by_cases hj : j = i
  · subst hj
    simp only [step, hf, if_true]
    exact List.getElem?_set_self (List.getElem?_eq_some_iff.mp hf).1
  · rw [if_neg hj]
    unfold step
    split
    · exact hf
    · rw [List.getElem?_set_ne hj]
      exact hf

theorem run_append (engine : Engine σ) (first rest : List (Nat × Instant)) (p : Pool α) (st : σ) :
    run engine (first ++ rest) p st =
      run engine rest (run engine first p st).1 (run engine first p st).2 := by
  induction first generalizing p st with
  | nil => rfl
  | cons x first ih => exact ih _ _

theorem log_append (engine : Engine σ) (first rest : List (Nat × Instant)) (p : Pool α) (st : σ) :
    log engine (first ++ rest) p st = log engine first p st ++
      log engine rest (run engine first p st).1 (run engine first p st).2 := by
  induction first generalizing p st with
  | nil => rfl
  | cons x first ih =>
    change (p.asked? x.1 st).toList ++ log engine (first ++ rest) _ _ = _
    rw [ih, ← List.append_assoc]
    rfl

theorem of_asked? {i : Nat} {p : Pool α} {st : σ} {e : Entry σ} (h : p.asked? i st = some e) :
    e.caller = i ∧ e.before = st ∧
      ∃ f next, p[i]? = some f ∧ f.rest = .ask e.statement next := by
  unfold asked? at h
  split at h
  · next hf =>
    cases h
    exact ⟨rfl, rfl, _, _, hf, rfl⟩
  · cases h

/-- A statement was asked when the run had come to a point where its call asks it, and met the state
of that point. -/
theorem asked_run {engine : Engine σ} {schedule : List (Nat × Instant)} {p : Pool α} {st : σ}
    {first rest : List (Entry σ)} {e : Entry σ}
    (h : log engine schedule p st = first ++ e :: rest) :
    ∃ made later, schedule = made ++ later ∧ log engine made p st = first ∧
      e.before = (run engine made p st).2 ∧
      ∃ f next, (run engine made p st).1[e.caller]? = some f ∧ f.rest = .ask e.statement next := by
  induction schedule generalizing p st first with
  | nil => cases first <;> cases h
  | cons x schedule ih =>
    obtain ⟨i, now⟩ := x
    change (p.asked? i st).toList ++ _ = _ at h
    cases hasked : p.asked? i st with
    | none =>
      rw [hasked] at h
      obtain ⟨made, later, rfl, hfirst, hpoint⟩ := ih h
      refine ⟨(i, now) :: made, later, rfl, ?_, hpoint⟩
      simp only [log, hasked, hfirst, Option.toList_none, List.nil_append]
    | some asked =>
      rw [hasked] at h
      cases first with
      | nil =>
        obtain ⟨rfl, _⟩ := List.cons.inj h
        obtain ⟨rfl, hbefore, hcall⟩ := of_asked? hasked
        exact ⟨[], _, rfl, rfl, hbefore, hcall⟩
      | cons _ first =>
        obtain ⟨rfl, hlater⟩ := List.cons.inj h
        obtain ⟨made, later, rfl, hfirst, hpoint⟩ := ih hlater
        refine ⟨(i, now) :: made, later, rfl, ?_, hpoint⟩
        simp only [log, hasked, hfirst, Option.toList_some, List.singleton_append]

/-- The state that a statement meets is one that the run has come to before. -/
theorem before_run {engine : Engine σ} {schedule : List (Nat × Instant)} {p : Pool α} {st : σ}
    {first rest : List (Entry σ)} {e : Entry σ}
    (h : log engine schedule p st = first ++ e :: rest) :
    ∃ made later, schedule = made ++ later ∧ e.before = (run engine made p st).2 := by
  obtain ⟨made, later, hschedule, _, hbefore, _⟩ := asked_run h
  exact ⟨made, later, hschedule, hbefore⟩

/-- Each of these entries met the state that the one before it left; the first met `st`, and the
last left `st'`. -/
def Chain (engine : Engine σ) : σ → List (Entry σ) → σ → Prop
  | st, [], st' => st' = st
  | st, e :: es, st' => e.before = st ∧ Chain engine (engine e.statement st).2 es st'

theorem chain_append {engine : Engine σ} {es es' : List (Entry σ)} {st st' : σ} :
    Chain engine st (es ++ es') st' ↔
      ∃ mid, Chain engine st es mid ∧ Chain engine mid es' st' := by
  induction es generalizing st with
  | nil => simp [Chain]
  | cons e es ih =>
    simp only [List.cons_append, Chain, ih]
    constructor
    · intro h
      obtain ⟨hmet, mid, hfirst, hrest⟩ := h
      exact ⟨mid, ⟨hmet, hfirst⟩, hrest⟩
    · intro h
      obtain ⟨mid, ⟨hmet, hfirst⟩, hrest⟩ := h
      exact ⟨hmet, mid, hfirst, hrest⟩

/-- What lies between two entries leads from the state that the first left to the one that the
second met. -/
theorem chain_between {engine : Engine σ} {first between last : List (Entry σ)} {e e' : Entry σ}
    {st st' : σ} (h : Chain engine st (first ++ e :: (between ++ e' :: last)) st') :
    Chain engine (engine e.statement e.before).2 between e'.before := by
  obtain ⟨mid, _, hmet, hrest⟩ := chain_append.mp h
  obtain ⟨mid', hbetween, hmet', _⟩ := chain_append.mp hrest
  rwa [hmet, hmet']

/-- The log of a run leads from the state before it to the state after it. -/
theorem chain_log (engine : Engine σ) (schedule : List (Nat × Instant)) (p : Pool α) (st : σ) :
    Chain engine st (log engine schedule p st) (run engine schedule p st).2 := by
  induction schedule generalizing p st with
  | nil => rfl
  | cons x schedule ih =>
    obtain ⟨i, now⟩ := x
    have hrest := ih (p.step engine now i st).1 (p.step engine now i st).2
    have hmoves := moves_step engine now i p st
    change Chain engine st ((p.asked? i st).toList ++ _) _
    rw [chain_append]
    refine ⟨(p.step engine now i st).2, ?_, hrest⟩
    generalize p.asked? i st = entry at hmoves
    generalize p.step engine now i st = after at hmoves
    obtain ⟨p', st'⟩ := after
    cases hmoves with
    | ask => exact ⟨rfl, rfl⟩
    | idle | clock | again => rfl

/-- An entry of a log that has grown by one is the new one, or it stood in the log before. -/
theorem split_concat {entries first rest : List (Entry σ)} {e new : Entry σ}
    (h : entries ++ [new] = first ++ e :: rest) :
    (first = entries ∧ e = new ∧ rest = []) ∨
      ∃ rest', rest = rest' ++ [new] ∧ entries = first ++ e :: rest' := by
  rcases List.eq_nil_or_concat rest with rfl | ⟨rest', last, rfl⟩
  · obtain ⟨hfirst, hlast⟩ := List.append_inj' h rfl
    cases hlast
    exact .inl ⟨hfirst.symm, rfl, rfl⟩
  · rw [List.concat_eq_append, ← List.cons_append, ← List.append_assoc] at h
    obtain ⟨hbefore, hlast⟩ := List.append_inj' h rfl
    cases hlast
    exact .inr ⟨rest', List.concat_eq_append, hbefore⟩

/-- What holds at the start and is kept by every move of the schedule holds after the run; it may
look at the steps that were made and at the log that they left. -/
theorem run_induction (engine : Engine σ) (schedule : List (Nat × Instant)) (p : Pool α) (st : σ)
    {motive : List (Nat × Instant) → List (Entry σ) → Pool α → σ → Prop} (start : motive [] [] p st)
    (step : ∀ made log p st i now entry p' st', (i, now) ∈ schedule → motive made log p st →
      Moves engine now i p st entry p' st' →
      motive (made ++ [(i, now)]) (log ++ entry.toList) p' st') :
    motive schedule (log engine schedule p st) (run engine schedule p st).1
      (run engine schedule p st).2 := by
  induction schedule using List.reverseRecOn with
  | nil => exact start
  | append_singleton schedule x ih =>
    obtain ⟨i, now⟩ := x
    have hbefore := ih (fun made log p st i now entry p' st' hmem =>
      step made log p st i now entry p' st' (List.mem_append_left _ hmem))
    have hmoves := moves_step engine now i (run engine schedule p st).1
      (run engine schedule p st).2
    have hafter := step _ _ _ _ i now _ _ _ (by simp) hbefore hmoves
    rw [run_append, log_append]
    simpa [run, log] using hafter

/-! ### Entries and what belongs to them -/

section
variable {α β : Type} {R : α → β → Prop} {as : List α} {bs : List β}

theorem forall_of_forall₂ {P : α → Prop} {Q : β → Prop} (h : List.Forall₂ R as bs)
    (has : ∀ a ∈ as, P a) (hkept : ∀ a b, R a b → P a → Q b) : ∀ b ∈ bs, Q b := by
  induction h with
  | nil => simp
  | cons hab _ ih =>
    obtain ⟨hfirst, hrest⟩ := List.forall_mem_cons.mp has
    exact List.forall_mem_cons.mpr ⟨hkept _ _ hab hfirst, ih hrest⟩

theorem pairwise_of_forall₂ {S : α → α → Prop} {T : β → β → Prop} (h : List.Forall₂ R as bs)
    (has : as.Pairwise S) (hkept : ∀ a b a' b', R a b → R a' b' → S a a' → T b b') :
    bs.Pairwise T := by
  induction h with
  | nil => exact .nil
  | cons hab h ih =>
    obtain ⟨hlater, has⟩ := List.pairwise_cons.mp has
    exact .cons (forall_of_forall₂ h hlater fun a' b' hab' => hkept _ _ a' b' hab hab') (ih has)

end

end Pool
end AlertDesk
