import AlertDesk.Proofs.Courses
import AlertDesk.Service.Rows

/-!
Calls made alone. No other call comes between their statements, and the clock shows them what it
likes. What such a call answers and leaves is told by following it from each statement to the next.
-/
namespace AlertDesk

namespace Call

variable {α β σ : Type} {engine : Engine σ}

/-- The call from its first step to its answer, or to the point where it starts over, where the
clock shows these readings one after the other. -/
def alone (engine : Engine σ) : (readings : Nat → Instant) → Call α → σ → Option α × σ
  | _, .done a, st => (some a, st)
  | readings, .ask s next, st =>
    alone engine readings (next (engine s st).1) (engine s st).2
  | readings, .clock next, st => alone engine (fun n => readings (n + 1)) (next (readings 0)) st
  | _, .again, st => (none, st)

theorem alone_map (f : α → β) (readings : Nat → Instant) (c : Call α) (st : σ) :
    (c.map f).alone engine readings st =
      ((c.alone engine readings st).1.map f, (c.alone engine readings st).2) := by
  induction c generalizing readings st with
  | done a => rfl
  | ask s next ih => exact ih _ _ _
  | clock next ih => exact ih _ _ _
  | again => rfl

/-- Whatever the clock shows, the call comes to an answer, and that answer and the state that it
leaves are as they should be. -/
def Yields (engine : Engine σ) : Call α → σ → (α → σ → Prop) → Prop
  | .done a, st, should => should a st
  | .ask s next, st, should =>
    Yields engine (next (engine s st).1) (engine s st).2 should
  | .clock next, st, should => ∀ now, Yields engine (next now) st should
  | .again, _, _ => False

theorem Yields.alone {c : Call α} {st : σ} {should : α → σ → Prop} (h : c.Yields engine st should)
    (readings : Nat → Instant) :
    ∃ a after, c.alone engine readings st = (some a, after) ∧ should a after := by
  induction c generalizing readings st with
  | done a => exact ⟨a, st, rfl, h⟩
  | ask s next ih => exact ih _ h readings
  | clock next ih => exact ih _ (h _) _
  | again => exact h.elim

/-- What a call yields is so of every pass through it. -/
theorem Yields.of_alone {c : Call α} {st after : σ} {a : α} {should : α → σ → Prop}
    (h : c.Yields engine st should) {readings : Nat → Instant}
    (halone : c.alone engine readings st = (some a, after)) : should a after := by
  obtain ⟨a', after', hsame, hshould⟩ := h.alone readings
  rw [halone] at hsame
  cases hsame
  exact hshould

theorem Yields.imp {c : Call α} {st : σ} {first should : α → σ → Prop}
    (h : c.Yields engine st first) (himp : ∀ a after, first a after → should a after) :
    c.Yields engine st should := by
  induction c generalizing st with
  | done a => exact himp a st h
  | ask s next ih => exact ih _ h
  | clock next ih => exact fun now => ih now (h now)
  | again => exact h.elim

/-- What every statement of the call keeps is so in the end as well. -/
theorem Yields.keeps {P : Statement → Prop} {I : σ → Prop} {c : Call α} {st : σ}
    {should : α → σ → Prop} (h : c.Yields engine st should) (hc : c.AsksOnly P)
    (step : ∀ s st, P s → I st → I (engine s st).2) (start : I st) :
    c.Yields engine st fun a after => should a after ∧ I after := by
  induction c generalizing st with
  | done a => exact ⟨h, start⟩
  | ask s next ih => exact ih _ h (hc.2 _) (step s st hc.1 start)
  | clock next ih => exact fun now => ih now (h now) (hc now) start
  | again => exact h.elim

theorem Yields.bind {c : Call α} {f : α → Call β} {st : σ} {first : α → σ → Prop}
    {should : β → σ → Prop} (hc : c.Yields engine st first)
    (hf : ∀ a after, first a after → (f a).Yields engine after should) :
    (c.bind f).Yields engine st should := by
  induction c generalizing st with
  | done a => exact hf a st hc
  | ask s next ih => exact ih _ hc
  | clock next ih => exact fun now => ih now (hc now)
  | again => exact hc.elim

/-- Made alone, the call comes to this answer and leaves this state, and the clock goes on with
other readings, whatever is done with the answer. -/
def LeadsTo (engine : Engine σ) (c : Call α) (readings : Nat → Instant) (st : σ) (a : α)
    (readings' : Nat → Instant) (after : σ) : Prop :=
  ∀ (β : Type) (f : α → Call β),
    (c.bind f).alone engine readings st = (f a).alone engine readings' after

end Call

def FailsWith {α : Type} (kind : Failure.Kind) (answer : Except Failure α) : Prop :=
  ∃ e, answer = .error e ∧ e.kind = kind

namespace Service

variable {α β : Type} {st : Store}

def alone (x : Service α) (readings : Nat → Instant) (st : Store) :
    Option (Except Failure α) × Store := Call.alone Store.engine readings x.run st

theorem alone_ask_bind {s : Statement} (f : s.Answer → Service β) (readings : Nat → Instant)
    (st : Store) : alone (bind (α := no_index s.Answer) (ask s) f) readings st =
      (settle (Store.engine s st).1 >>= f).alone readings (Store.engine s st).2 := rfl

theorem alone_clock_bind (f : Instant → Service β) (readings : Nat → Instant) (st : Store) :
    (Service.clock >>= f).alone readings st =
      (f (readings 0)).alone (fun n => readings (n + 1)) st := rfl

def LeadsTo (x : Service α) (readings : Nat → Instant) (st : Store) (r : Except Failure α)
    (readings' : Nat → Instant) (after : Store) : Prop :=
  Call.LeadsTo Store.engine x.run readings st r readings' after

section
variable {x : Service α} {r : Except Failure α} {readings readings' : Nat → Instant} {after : Store}

theorem LeadsTo.alone (h : x.LeadsTo readings st r readings' after) :
    x.alone readings st = (some r, after) := by
  have hdone := h _ Call.done
  rwa [Call.bind_done] at hdone

theorem LeadsTo.bind {a : α} (h : x.LeadsTo readings st (.ok a) readings' after)
    (f : α → Service β) : (x >>= f).alone readings st = (f a).alone readings' after := h _ _

theorem leadsTo_clock_bind {f : Instant → Service α}
    (h : (f (readings 0)).LeadsTo (fun n => readings (n + 1)) st r readings' after) :
    (Service.clock >>= f).LeadsTo readings st r readings' after := h

/-- A failure that is looked at stops nothing. -/
theorem LeadsTo.attempt (h : x.LeadsTo readings st r readings' after)
    (f : Except Failure α → Service β) :
    (attempt x >>= f).alone readings st = (f r).alone readings' after := by
  rw [Service.alone, run_attempt_bind]
  exact h _ _

end

theorem alone_bind_pure (x : Service α) (g : α → β) (readings : Nat → Instant) (st : Store) :
    (x >>= fun a => pure (g a)).alone readings st =
      ((x.alone readings st).1.map (·.map g), (x.alone readings st).2) := by
  rw [alone, run_bind_pure, Call.alone_map]
  rfl

def Yields (x : Service α) (st : Store) (should : Except Failure α → Store → Prop) : Prop :=
  Call.Yields Store.engine x.run st should

section
variable {should : Except Failure α → Store → Prop} {should' : Except Failure β → Store → Prop}

theorem Yields.alone {x : Service α} (h : x.Yields st should) (readings : Nat → Instant) :
    ∃ a after, x.alone readings st = (some a, after) ∧ should a after :=
  Call.Yields.alone h readings

theorem Yields.of_alone {x : Service α} {a : Except Failure α} {after : Store}
    (h : x.Yields st should) {readings : Nat → Instant}
    (halone : x.alone readings st = (some a, after)) : should a after :=
  Call.Yields.of_alone h halone

theorem Yields.imp {x : Service α} {first : Except Failure α → Store → Prop}
    (h : x.Yields st first) (himp : ∀ a after, first a after → should a after) :
    x.Yields st should := Call.Yields.imp h himp

theorem Yields.keeps {P : Statement → Prop} {I : Store → Prop} {x : Service α}
    (h : x.Yields st should) (hx : x.AsksOnly P)
    (step : ∀ s st, P s → I st → I (Store.engine s st).2) (start : I st) :
    x.Yields st fun a after => should a after ∧ I after := Call.Yields.keeps h hx step start

@[simp] theorem yields_pure {a : α} : (pure a : Service α).Yields st should ↔ should (.ok a) st :=
  Iff.rfl

@[simp] theorem yields_throw {e : Failure} :
    (throw e : Service α).Yields st should ↔ should (.error e) st := Iff.rfl

@[simp] theorem yields_settle {r : Except Failure α} :
    (settle r).Yields st should ↔ should r st := Iff.rfl

theorem yields_clock_bind {f : Instant → Service β} :
    (Service.clock >>= f).Yields st should' ↔ ∀ now, (f now).Yields st should' := Iff.rfl

theorem yields_ask_bind {s : Statement} {f : s.Answer → Service β} :
    Yields (bind (α := no_index s.Answer) (ask s) f) st should' ↔
      (settle (Store.engine s st).1 >>= f).Yields (Store.engine s st).2 should' := Iff.rfl

theorem yields_ask_of_ok {s : Statement} {f : s.Answer → Service β} {a : s.Answer} {mid : Store}
    (h : Store.engine s st = (.ok a, mid)) :
    Yields (bind (α := no_index s.Answer) (ask s) f) st should' ↔ (f a).Yields mid should' := by
  rw [yields_ask_bind, h]
  rfl

theorem yields_settle_bind {r : Except Failure α} {f : α → Service β}
    (hok : ∀ a, r = .ok a → (f a).Yields st should')
    (herror : ∀ e, r = .error e → should' (.error e) st) : (settle r >>= f).Yields st should' := by
  cases r with
  | ok a => exact hok a rfl
  | error e => exact herror e rfl

/-- A row that was looked for is not there, or cannot be read, or is read. -/
theorem yields_readOne_bind {ρ : Type} {read : ρ → Except Failure α} {row : Option ρ}
    {f : Option α → Service β} (hnone : row = none → (f none).Yields st should')
    (hfailed : ∀ r e, row = some r → read r = .error e → should' (.error e) st)
    (hok : ∀ r a, row = some r → read r = .ok a → (f (some a)).Yields st should') :
    (Rows.readOne read row >>= f).Yields st should' := by
  cases row with
  | none => exact hnone rfl
  | some r =>
    rw [Rows.readOne]
    cases hread : read r with
    | error e =>
      rw [mapM_some_error hread]
      exact hfailed r e rfl hread
    | ok a =>
      rw [mapM_some_ok hread]
      exact hok r a rfl hread

theorem Yields.bind {x : Service α} {f : α → Service β} (hx : x.Yields st should)
    (hok : ∀ a after, should (.ok a) after → (f a).Yields after should')
    (herror : ∀ e after, should (.error e) after → should' (.error e) after) :
    (x >>= f).Yields st should' := by
  apply Call.Yields.bind hx
  intro r after hr
  cases r with
  | ok a => exact hok a after hr
  | error e => exact herror e after hr

end
end Service
end AlertDesk
