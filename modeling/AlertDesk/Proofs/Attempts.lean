import AlertDesk.Proofs.Asking

/-!
Single attempts at a call. Left alone, a call comes to its answer. When one of its statements
fails, no one can tell from outside whether that statement took effect, and the call goes on with
the failure as its answer.
-/
namespace AlertDesk

namespace Call

variable {α β σ : Type} {engine : Engine σ} {clock : Instant → Prop} {failure : Failure}

/-- Left alone, the call comes to this answer and leaves this state, with readings of the clock
that are allowed. -/
inductive Returns (engine : Engine σ) (clock : Instant → Prop) : Call α → σ → α → σ → Prop
  | done (a : α) (st : σ) : Returns engine clock (.done a) st a st
  | ask {s : Statement} {next : Except Failure s.Answer → Call α} {st st' : σ} {a : α}
      (h : Returns engine clock (next (engine s st).1) (engine s st).2 a st') :
      Returns engine clock (.ask s next) st a st'
  | clock {next : Instant → Call α} {now : Instant} {st st' : σ} {a : α} (hnow : clock now)
      (h : Returns engine clock (next now) st a st') : Returns engine clock (.clock next) st a st'

/-- One statement of the call fails, and none after it. Those before it took effect; it is lost or
it took effect as well, and in both cases the call is told of the failure. -/
inductive BreaksOff (engine : Engine σ) (clock : Instant → Prop) (failure : Failure) :
    Call α → σ → α → σ → Prop
  | lost {s : Statement} {next : Except Failure s.Answer → Call α} {st st' : σ} {a : α}
      (h : Returns engine clock (next (.error failure)) st a st') :
      BreaksOff engine clock failure (.ask s next) st a st'
  | kept {s : Statement} {next : Except Failure s.Answer → Call α} {st st' : σ} {a : α}
      (h : Returns engine clock (next (.error failure)) (engine s st).2 a st') :
      BreaksOff engine clock failure (.ask s next) st a st'
  | later {s : Statement} {next : Except Failure s.Answer → Call α} {st st' : σ} {a : α}
      (h : BreaksOff engine clock failure (next (engine s st).1) (engine s st).2 a st') :
      BreaksOff engine clock failure (.ask s next) st a st'
  | clock {next : Instant → Call α} {now : Instant} {st st' : σ} {a : α} (hnow : clock now)
      (h : BreaksOff engine clock failure (next now) st a st') :
      BreaksOff engine clock failure (.clock next) st a st'

/-- Where the clock stands still, this is a pass through the call. -/
theorem pass_eq_some_iff {now : Instant} {c : Call α} {st st' : σ} {a : α} :
    c.pass engine now st = (some a, st') ↔ c.Returns engine (· = now) st a st' := by
  induction c generalizing st with
  | done b =>
    simp only [pass, Prod.mk.injEq, Option.some.injEq]
    constructor
    · intro h
      obtain ⟨rfl, rfl⟩ := h
      exact .done _ _
    · intro h
      cases h
      exact ⟨rfl, rfl⟩
  | ask s next ih =>
    rw [pass, ih]
    constructor
    · exact .ask
    · intro h
      cases h with
      | ask hnext => exact hnext
  | clock next ih =>
    rw [pass, ih]
    constructor
    · exact .clock rfl
    · intro h
      cases h with
      | clock hnow h => rwa [hnow] at h
  | again =>
    constructor
    · intro h
      cases h
    · intro h
      cases h

theorem Returns.mono {clock' : Instant → Prop} {c : Call α} {st st' : σ} {a : α}
    (h : c.Returns engine clock st a st') (hclock : ∀ t, clock t → clock' t) :
    c.Returns engine clock' st a st' := by
  induction h with
  | done a st => exact .done a st
  | ask _ ih => exact .ask ih
  | clock hnow _ ih => exact .clock (hclock _ hnow) ih

/-! ### What they keep -/

variable {P : Statement → Prop} {I : σ → Prop}

theorem Returns.keeps {c : Call α} {st st' : σ} {a : α} (h : c.Returns engine clock st a st')
    (hc : c.Asks clock P) (step : ∀ s st, P s → I st → I (engine s st).2) (start : I st) :
    I st' := by
  induction h with
  | done => exact start
  | ask _ ih => exact ih (hc.2 _) (step _ _ hc.1 start)
  | clock hnow _ ih => exact ih (hc _ hnow) start

theorem BreaksOff.keeps {c : Call α} {st st' : σ} {a : α}
    (h : c.BreaksOff engine clock failure st a st') (hc : c.Asks clock P)
    (step : ∀ s st, P s → I st → I (engine s st).2) (start : I st) : I st' := by
  induction h with
  | lost h => exact h.keeps (hc.2 _) step start
  | kept h => exact h.keeps (hc.2 _) step (step _ _ hc.1 start)
  | later _ ih => exact ih (hc.2 _) (step _ _ hc.1 start)
  | clock hnow _ ih => exact ih (hc _ hnow) start

end Call

/-! ### Calls that may fail -/

namespace Service

variable {α β : Type} {clock : Instant → Prop} {failure : Failure} {st st' mid : Store}

def Returns (clock : Instant → Prop) (x : Service α) (st : Store) (r : Except Failure α)
    (st' : Store) : Prop := Call.Returns Store.engine clock x.run st r st'

def BreaksOff (clock : Instant → Prop) (failure : Failure) (x : Service α) (st : Store)
    (r : Except Failure α) (st' : Store) : Prop :=
  Call.BreaksOff Store.engine clock failure x.run st r st'

@[simp] theorem returns_pure {a : α} {r : Except Failure α} :
    (pure a : Service α).Returns clock st r st' ↔ r = .ok a ∧ st' = st := by
  constructor
  · intro h
    cases h
    exact ⟨rfl, rfl⟩
  · intro h
    obtain ⟨rfl, rfl⟩ := h
    exact .done _ _

@[simp] theorem returns_throw {e : Failure} {r : Except Failure α} :
    (throw e : Service α).Returns clock st r st' ↔ r = .error e ∧ st' = st := by
  constructor
  · intro h
    cases h
    exact ⟨rfl, rfl⟩
  · intro h
    obtain ⟨rfl, rfl⟩ := h
    exact .done _ _

@[simp] theorem returns_settle {r r' : Except Failure α} :
    (settle r').Returns clock st r st' ↔ r = r' ∧ st' = st := by
  cases r' with
  | ok a => exact returns_pure
  | error e => exact returns_throw

@[simp] theorem breaksOff_pure {a : α} {r : Except Failure α} :
    ¬ (pure a : Service α).BreaksOff clock failure st r st' := by
  intro h
  cases h

@[simp] theorem breaksOff_throw {e : Failure} {r : Except Failure α} :
    ¬ (throw e : Service α).BreaksOff clock failure st r st' := by
  intro h
  cases h

theorem returns_clock_bind {f : Instant → Service β} {r : Except Failure β} :
    (Service.clock >>= f).Returns clock st r st' ↔
      ∃ now, clock now ∧ (f now).Returns clock st r st' := by
  constructor
  · intro h
    cases h with
    | clock hnow hnext => exact ⟨_, hnow, hnext⟩
  · intro h
    obtain ⟨now, hnow, hnext⟩ := h
    exact .clock hnow hnext

theorem breaksOff_clock_bind {f : Instant → Service β} {r : Except Failure β} :
    (Service.clock >>= f).BreaksOff clock failure st r st' ↔
      ∃ now, clock now ∧ (f now).BreaksOff clock failure st r st' := by
  constructor
  · intro h
    cases h with
    | clock hnow hnext => exact ⟨_, hnow, hnext⟩
  · intro h
    obtain ⟨now, hnow, hnext⟩ := h
    exact .clock hnow hnext

section
variable {s : Statement} {f : s.Answer → Service β} {r : Except Failure β}

/-- The call goes on with the answer that its statement gets, from the store after it. -/
theorem returns_ask_bind : Returns clock (bind (α := no_index s.Answer) (ask s) f) st r st' ↔
    (settle (Store.engine s st).1 >>= f).Returns clock (Store.engine s st).2 r st' := by
  constructor
  · intro h
    cases h with
    | ask h => exact h
  · intro h
    exact .ask h

theorem returns_ask_of_ok {a : s.Answer} (h : Store.engine s st = (.ok a, mid)) :
    Returns clock (bind (α := no_index s.Answer) (ask s) f) st r st' ↔
      (f a).Returns clock mid r st' := by
  constructor
  · intro hasked
    cases hasked with
    | ask hnext =>
      rw [h] at hnext
      exact hnext
  · intro hnext
    refine .ask ?_
    rw [h]
    exact hnext

theorem returns_ask_of_error {e : Failure} (h : Store.engine s st = (.error e, mid)) :
    Returns clock (bind (α := no_index s.Answer) (ask s) f) st r st' ↔
      r = .error e ∧ st' = mid := by
  constructor
  · intro hasked
    cases hasked with
    | ask hnext =>
      rw [h] at hnext
      exact returns_throw.mp hnext
  · intro hnext
    refine .ask ?_
    rw [h]
    exact returns_throw.mpr hnext

theorem breaksOff_ask_of_ok {a : s.Answer} (h : Store.engine s st = (.ok a, mid)) :
    BreaksOff clock failure (bind (α := no_index s.Answer) (ask s) f) st r st' ↔
      (r = .error failure ∧ (st' = st ∨ st' = mid)) ∨ (f a).BreaksOff clock failure mid r st' := by
  constructor
  · intro hasked
    cases hasked with
    | lost hnext =>
      obtain ⟨hr, hst⟩ := returns_throw.mp hnext
      exact .inl ⟨hr, .inl hst⟩
    | kept hnext =>
      rw [h] at hnext
      obtain ⟨hr, hst⟩ := returns_throw.mp hnext
      exact .inl ⟨hr, .inr hst⟩
    | later hnext =>
      rw [h] at hnext
      exact .inr hnext
  · intro hways
    rcases hways with ⟨rfl, rfl | rfl⟩ | hnext
    · exact .lost (.done _ _)
    · refine .kept ?_
      rw [h]
      exact .done _ _
    · refine .later ?_
      rw [h]
      exact hnext

theorem breaksOff_ask_of_error {e : Failure} (h : Store.engine s st = (.error e, mid)) :
    BreaksOff clock failure (bind (α := no_index s.Answer) (ask s) f) st r st' ↔
      r = .error failure ∧ (st' = st ∨ st' = mid) := by
  constructor
  · intro hasked
    cases hasked with
    | lost hnext =>
      obtain ⟨hr, hst⟩ := returns_throw.mp hnext
      exact ⟨hr, .inl hst⟩
    | kept hnext =>
      rw [h] at hnext
      obtain ⟨hr, hst⟩ := returns_throw.mp hnext
      exact ⟨hr, .inr hst⟩
    | later hnext =>
      rw [h] at hnext
      exact absurd hnext breaksOff_throw
  · intro hways
    rcases hways with ⟨rfl, rfl | rfl⟩
    · exact .lost (.done _ _)
    · refine .kept ?_
      rw [h]
      exact .done _ _

end
end Service
end AlertDesk
