import AlertDesk.Proofs.Pools

/-!
The statements that a call may ask, whatever the answers it gets and whatever allowed readings of
the clock. What every one of these statements keeps is kept by the call, and by any pool of such
calls.
-/
namespace AlertDesk

namespace Call

variable {α β : Type} {clock : Instant → Prop} {P Q : Statement → Prop}

def Asks (clock : Instant → Prop) (P : Statement → Prop) : Call α → Prop
  | .done _ => True
  | .ask s next => P s ∧ ∀ r, (next r).Asks clock P
  | .clock next => ∀ t, clock t → (next t).Asks clock P
  | .again => True

theorem asks_bind {c : Call α} {f : α → Call β} (hc : c.Asks clock P)
    (hf : ∀ a, (f a).Asks clock P) : (c.bind f).Asks clock P := by
  induction c with
  | done a => exact hf a
  | ask s next ih => exact ⟨hc.1, fun r => ih r (hc.2 r)⟩
  | clock next ih => exact fun t ht => ih t (hc t ht)
  | again => trivial

theorem bind_assoc {γ : Type} (c : Call α) (f : α → Call β) (g : β → Call γ) :
    (c.bind f).bind g = c.bind fun a => (f a).bind g := by
  induction c with
  | done a => rfl
  | ask s next ih => exact congrArg (Call.ask s) (funext fun r => ih r)
  | clock next ih => exact congrArg Call.clock (funext fun t => ih t)
  | again => rfl

theorem bind_done (c : Call α) : c.bind .done = c := by
  induction c with
  | done a => rfl
  | ask s next ih => exact congrArg (Call.ask s) (funext fun r => ih r)
  | clock next ih => exact congrArg Call.clock (funext fun t => ih t)
  | again => rfl

instance : LawfulMonad Call :=
  LawfulMonad.mk' Call (fun c => bind_done c) (fun _ _ => rfl) (fun c f g => bind_assoc c f g)

theorem Asks.mono {c : Call α} (hc : c.Asks clock P) (hPQ : ∀ s, P s → Q s) :
    c.Asks clock Q := by
  induction c with
  | done a => trivial
  | ask s next ih => exact ⟨hPQ s hc.1, fun r => ih r (hc.2 r)⟩
  | clock next ih => exact fun t ht => ih t (hc t ht)
  | again => trivial

end Call

namespace Service

variable {α β : Type} {clock : Instant → Prop} {P : Statement → Prop}

/-! ### Calls as sequences of statements and readings -/

@[simp] theorem throw_bind (f : Failure) (g : α → Service β) :
    ((throw f : Service α) >>= g) = throw f := rfl

@[simp] theorem settle_ok (a : α) : settle (.ok a) = (pure a : Service α) := rfl

@[simp] theorem settle_error (f : Failure) : settle (.error f) = (throw f : Service α) := rfl

theorem run_attempt_bind (x : Service α) (f : Except Failure α → Service β) :
    (attempt x >>= f).run = x.run.bind fun r => (f r).run := Call.bind_assoc x.run _ _

theorem mapM_some_ok {ρ : Type} {read : ρ → Except Failure α} {row : ρ} {a : α}
    (h : read row = .ok a) : (some row).mapM read = .ok (some a) := by
  rw [Option.mapM_some, h]
  rfl

theorem mapM_some_error {ρ : Type} {read : ρ → Except Failure α} {row : ρ} {e : Failure}
    (h : read row = .error e) : (some row).mapM read = .error e := by
  rw [Option.mapM_some, h]
  rfl

theorem of_mapM_some {ρ : Type} {read : ρ → Except Failure α} {row : ρ} {found : Option α}
    (h : (some row).mapM read = .ok found) : ∃ a, found = some a ∧ read row = .ok a := by
  cases hread : read row with
  | error e =>
    rw [mapM_some_error hread] at h
    cases h
  | ok a =>
    rw [mapM_some_ok hread] at h
    cases h
    exact ⟨a, rfl, rfl⟩

/-! ### What they ask -/

def Asks (clock : Instant → Prop) (P : Statement → Prop) (x : Service α) : Prop :=
  Call.Asks clock P x.run

@[simp] theorem asks_pure (a : α) : Asks clock P (pure a : Service α) := trivial

@[simp] theorem asks_throw (f : Failure) : Asks clock P (throw f : Service α) := trivial

@[simp] theorem asks_settle (r : Except Failure α) : Asks clock P (settle r) := trivial

@[simp] theorem asks_again : Asks clock P (again : Service α) := trivial

@[simp] theorem asks_ask (s : Statement) : Asks (α := no_index s.Answer) clock P (ask s) ↔ P s :=
  ⟨fun h => h.1, fun hs => ⟨hs, fun _ => trivial⟩⟩

theorem asks_bind {x : Service α} {f : α → Service β} (hx : x.Asks clock P)
    (hf : ∀ a, (f a).Asks clock P) : (x >>= f).Asks clock P := by
  apply Call.asks_bind hx
  intro r
  cases r with
  | ok a => exact hf a
  | error e => trivial

@[simp] theorem asks_ask_bind (s : Statement) (f : s.Answer → Service β) :
    Asks clock P (bind (α := no_index s.Answer) (ask s) f) ↔ P s ∧ ∀ a, (f a).Asks clock P :=
  ⟨fun h => ⟨h.1, fun a => h.2 (.ok a)⟩, fun h => asks_bind ((asks_ask s).mpr h.1) h.2⟩

@[simp] theorem asks_clock_bind (f : Instant → Service β) :
    (Service.clock >>= f).Asks clock P ↔ ∀ t, clock t → (f t).Asks clock P := Iff.rfl

@[simp] theorem asks_settle_bind (r : Except Failure α) (f : α → Service β) :
    (settle r >>= f).Asks clock P ↔ ∀ a, r = .ok a → (f a).Asks clock P := by
  cases r with
  | ok a => simp
  | error e => simp

theorem asks_attempt {x : Service α} (hx : x.Asks clock P) : (attempt x).Asks clock P :=
  Call.asks_bind hx fun _ => trivial

end Service

namespace Pool

variable {α σ : Type}

def Asks (clock : Nat → Instant → Prop) (P : Nat → Statement → Prop) (p : Pool α) : Prop :=
  ∀ (i : Nat) (f : Flight α), p[i]? = some f →
    f.call.Asks (clock i) (P i) ∧ f.rest.Asks (clock i) (P i)

variable {engine : Engine σ} {clock : Nat → Instant → Prop} {P : Nat → Statement → Prop}

theorem asks_set {p : Pool α} {i : Nat} {f : Flight α} (hp : p.Asks clock P)
    (hf : f.call.Asks (clock i) (P i) ∧ f.rest.Asks (clock i) (P i)) :
    Pool.Asks clock P (p.set i f) := by
  intro j g hg
  rcases getElem?_set_cases hg with ⟨rfl, rfl⟩ | ⟨_, hold⟩
  · exact hf
  · exact hp j g hold

theorem asks_moves {now : Instant} {i : Nat} {p p' : Pool α} {st st' : σ} {entry : Option (Entry σ)}
    (h : Moves engine now i p st entry p' st') (hnow : clock i now) (hp : p.Asks clock P) :
    p'.Asks clock P := by
  cases h with
  | idle => exact hp
  | ask f s next hf hrest =>
    have hasks := hp i f hf
    rw [hrest] at hasks
    exact asks_set hp ⟨hasks.1, hasks.2.2 _⟩
  | clock f next hf hrest =>
    have hasks := hp i f hf
    rw [hrest] at hasks
    exact asks_set hp ⟨hasks.1, hasks.2 now hnow⟩
  | again f hf hrest =>
    have hasks := hp i f hf
    exact asks_set hp ⟨hasks.1, hasks.1⟩

theorem asks_run (schedule : List (Nat × Instant)) (p : Pool α) (st : σ)
    (hclock : ∀ x ∈ schedule, clock x.1 x.2) (hp : p.Asks clock P) :
    (run engine schedule p st).1.Asks clock P :=
  run_induction engine schedule p st (motive := fun _ _ q _ => q.Asks clock P) hp
    fun _ _ _ _ _ _ _ _ _ hmem hq hmoves => asks_moves hmoves (hclock _ hmem) hq

/-- An invariant that may look at the log so far is kept by a run if it is kept by each statement
that its call may ask. -/
theorem run_keeps (schedule : List (Nat × Instant)) (p : Pool α) (st : σ)
    (hclock : ∀ x ∈ schedule, clock x.1 x.2) (hp : p.Asks clock P)
    {I : List (Entry σ) → σ → Prop} (start : I [] st)
    (step : ∀ log i s st, P i s → I log st → I (log ++ [⟨i, s, st⟩]) (engine s st).2) :
    I (log engine schedule p st) (run engine schedule p st).2 := by
  have hboth := run_induction engine schedule p st
    (motive := fun _ log q st => I log st ∧ q.Asks clock P) ⟨start, hp⟩ ?_
  · exact hboth.1
  · intro made log q st i now entry q' st' hmem h hmoves
    obtain ⟨hI, hq⟩ := h
    refine ⟨?_, asks_moves hmoves (hclock _ hmem) hq⟩
    cases hmoves with
    | idle => simpa using hI
    | ask f s next hf hrest =>
      have hasks := (hq i f hf).2
      rw [hrest] at hasks
      exact step log i s st hasks.1 hI
    | clock f next hf hrest => simpa using hI
    | again f hf hrest => simpa using hI

/-- Such an invariant held whenever a statement of the log was about to be carried out, and the
statement was one that its call may ask. -/
theorem run_keeps_before (schedule : List (Nat × Instant)) (p : Pool α) (st : σ)
    (hclock : ∀ x ∈ schedule, clock x.1 x.2) (hp : p.Asks clock P)
    {I : List (Entry σ) → σ → Prop} (start : I [] st)
    (step : ∀ log i s st, P i s → I log st → I (log ++ [⟨i, s, st⟩]) (engine s st).2)
    {first rest : List (Entry σ)} {e : Entry σ}
    (hlog : log engine schedule p st = first ++ e :: rest) :
    I first e.before ∧ P e.caller e.statement := by
  have hall : I (log engine schedule p st) (run engine schedule p st).2 ∧
      ∀ first e rest, log engine schedule p st = first ++ e :: rest →
        I first e.before ∧ P e.caller e.statement := by
    refine run_keeps schedule p st hclock hp
      (I := fun log st => I log st ∧
        ∀ first e rest, log = first ++ e :: rest → I first e.before ∧ P e.caller e.statement)
      ⟨start, by simp⟩ ?_
    intro log i s st hasked h
    obtain ⟨hI, hbefore⟩ := h
    refine ⟨step log i s st hasked hI, fun first e rest hlog => ?_⟩
    rcases split_concat hlog with ⟨rfl, rfl, rfl⟩ | ⟨rest', rfl, hold⟩
    · exact ⟨hI, hasked⟩
    · exact hbefore first e rest' hold
  exact hall.2 first e rest hlog

end Pool
end AlertDesk
