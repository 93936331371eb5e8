import AlertDesk.Proofs.Asking

/-!
The course of a call: the statements that were carried out for it, each with the state that it met.
Where a call stands follows from its course and from what it read off the clock, so what a call
answers can be told from what its own statements met, whatever was done for others in between.
-/
namespace AlertDesk

namespace Call

variable {α β σ : Type} {engine : Engine σ} {clock : Instant → Prop} {P : Statement → Prop}
  {whole c rest : Call α}

/-- From one point of a call to a later one, over the statements that it asked in between and with
readings of the clock that are allowed. The call starts over as `whole`. -/
inductive Course (engine : Engine σ) (clock : Instant → Prop) (whole : Call α) :
    Call α → List (Pool.Entry σ) → Call α → Prop
  | stop (c : Call α) : Course engine clock whole c [] c
  | ask {s : Statement} {next : Except Failure s.Answer → Call α} {i : Nat} {st : σ}
      {es : List (Pool.Entry σ)} {rest : Call α}
      (h : Course engine clock whole (next (engine s st).1) es rest) :
      Course engine clock whole (.ask s next) (⟨i, s, st⟩ :: es) rest
  | clock {next : Instant → Call α} {now : Instant} {es : List (Pool.Entry σ)} {rest : Call α}
      (hnow : clock now) (h : Course engine clock whole (next now) es rest) :
      Course engine clock whole (.clock next) es rest
  | again {es : List (Pool.Entry σ)} {rest : Call α}
      (h : Course engine clock whole whole es rest) : Course engine clock whole .again es rest

variable {es es' : List (Pool.Entry σ)}

theorem Course.trans {mid : Call α} (h : Course engine clock whole c es mid)
    (h' : Course engine clock whole mid es' rest) :
    Course engine clock whole c (es ++ es') rest := by
  induction h with
  | stop => exact h'
  | ask _ ih => exact .ask (ih h')
  | clock hnow _ ih => exact .clock hnow (ih h')
  | again _ ih => exact .again (ih h')

def AsksOnly (P : Statement → Prop) : Call α → Prop
  | .done _ => True
  | .ask s next => P s ∧ ∀ r, (next r).AsksOnly P
  | .clock next => ∀ t, (next t).AsksOnly P
  | .again => False

theorem asksOnly_bind {c : Call α} {f : α → Call β} (hc : c.AsksOnly P)
    (hf : ∀ a, (f a).AsksOnly P) : (c.bind f).AsksOnly P := by
  induction c with
  | done a => exact hf a
  | ask s next ih => exact ⟨hc.1, fun r => ih r (hc.2 r)⟩
  | clock next ih => exact fun t => ih t (hc t)
  | again => exact hc

theorem Course.asksOnly (h : Course engine clock whole c es rest) (hc : c.AsksOnly P) :
    rest.AsksOnly P := by
  induction h with
  | stop => exact hc
  | ask _ ih => exact ih (hc.2 _)
  | clock _ _ ih => exact ih (hc _)
  | again => exact hc.elim

/-- A course leads to each of its statements. -/
theorem Course.to_entry {e : Pool.Entry σ}
    (h : Course engine clock whole c (es ++ e :: es') rest) :
    ∃ next, Course engine clock whole c es (.ask e.statement next) := by
  generalize hall : es ++ e :: es' = all at h
  induction h generalizing es with
  | stop => simp at hall
  | @ask s next i st later rest h ih =>
    cases es with
    | nil =>
      cases hall
      exact ⟨next, .stop _⟩
    | cons first es =>
      obtain ⟨hfirst, hlater⟩ := List.cons.inj hall
      obtain ⟨next, hnext⟩ := ih hlater
      rw [hfirst]
      exact ⟨next, .ask hnext⟩
  | clock hnow _ ih =>
    obtain ⟨next, hnext⟩ := ih hall
    exact ⟨next, .clock hnow hnext⟩
  | again _ ih =>
    obtain ⟨next, hnext⟩ := ih hall
    exact ⟨next, .again hnext⟩

theorem Course.asks_of_mem (h : Course engine clock whole c es rest) (hc : c.AsksOnly P) :
    ∀ e ∈ es, P e.statement := by
  intro e he
  obtain ⟨first, last, rfl⟩ := List.append_of_mem he
  obtain ⟨next, hnext⟩ := h.to_entry
  exact (hnext.asksOnly hc).1

/-- What follows a call that does not start over ends after the course of that call, and of its
own. -/
theorem Course.of_bind {whole : Call β} {c : Call α} {f : α → Call β} {b : β} (hc : c.AsksOnly P)
    (h : Course engine clock whole (c.bind f) es (.done b)) : ∃ first second a,
      es = first ++ second ∧ (∀ whole, Course engine clock whole c first (.done a)) ∧
        Course engine clock whole (f a) second (.done b) := by
  induction c generalizing es with
  | done a => exact ⟨[], es, a, rfl, fun _ => .stop _, h⟩
  | ask s next ih =>
    cases h with
    | ask h =>
      obtain ⟨first, second, a, rfl, hfirst, hsecond⟩ := ih _ (hc.2 _) h
      exact ⟨_ :: first, second, a, rfl, fun whole => .ask (hfirst whole), hsecond⟩
  | clock next ih =>
    cases h with
    | clock hnow h =>
      obtain ⟨first, second, a, rfl, hfirst, hsecond⟩ := ih _ (hc _) h
      exact ⟨first, second, a, rfl, fun whole => .clock hnow (hfirst whole), hsecond⟩
  | again => exact hc.elim

def map (f : α → β) (c : Call α) : Call β := c.bind fun a => .done (f a)

/-- A call with its answer changed runs the course of the call. -/
theorem Course.of_map {f : α → β} {whole c : Call α} {rest : Call β}
    (h : Course engine clock (whole.map f) (c.map f) es rest) :
    ∃ rest', rest = rest'.map f ∧ Course engine clock whole c es rest' := by
  generalize hc : c.map f = mapped at h
  induction h generalizing c with
  | stop => exact ⟨c, hc.symm, .stop c⟩
  | ask _ ih =>
    cases c with
    | ask s next =>
      cases hc
      obtain ⟨rest', hrest, h⟩ := ih rfl
      exact ⟨rest', hrest, .ask h⟩
    | done | clock | again => cases hc
  | clock hnow _ ih =>
    cases c with
    | clock next =>
      cases hc
      obtain ⟨rest', hrest, h⟩ := ih rfl
      exact ⟨rest', hrest, .clock hnow h⟩
    | done | ask | again => cases hc
  | again _ ih =>
    cases c with
    | again =>
      obtain ⟨rest', hrest, h⟩ := ih rfl
      exact ⟨rest', hrest, .again h⟩
    | done | ask | clock => cases hc

end Call

namespace Flight

variable {α β σ : Type} {engine : Engine σ}

def map (f : α → β) (flight : Flight α) : Flight β := ⟨flight.call.map f, flight.rest.map f⟩

theorem step_map (f : α → β) (now : Instant) (flight : Flight α) (st : σ) :
    (flight.map f).step engine now st =
      ((flight.step engine now st).1.map f, (flight.step engine now st).2) := by
  obtain ⟨call, rest⟩ := flight
  cases rest with
  | done | ask | clock | again => rfl

end Flight

namespace Pool

variable {α β σ : Type} {engine : Engine σ}

/-! ### Runs in which only the answers differ -/

theorem asked?_map (f : α → β) (i : Nat) (p : Pool α) (st : σ) :
    Pool.asked? i (p.map (·.map f)) st = p.asked? i st := by
  simp only [asked?, List.getElem?_map]
  rcases hp : p[i]? with _ | ⟨call, rest⟩
  · rfl
  · cases rest with
    | done | ask | clock | again => rfl

theorem step_map (f : α → β) (now : Instant) (i : Nat) (p : Pool α) (st : σ) :
    Pool.step engine now i (p.map (·.map f)) st =
      ((p.step engine now i st).1.map (·.map f), (p.step engine now i st).2) := by
  simp only [step, List.getElem?_map]
  cases hp : p[i]? with
  | none => rfl
  | some flight =>
    simp only [Option.map_some, Flight.step_map]
    rw [List.map_set]

theorem run_map (f : α → β) (schedule : List (Nat × Instant)) (p : Pool α) (st : σ) :
    run engine schedule (p.map (·.map f)) st =
      ((run engine schedule p st).1.map (·.map f), (run engine schedule p st).2) := by
  induction schedule generalizing p st with
  | nil => rfl
  | cons x schedule ih =>
    simp only [run, step_map]
    exact ih _ _

theorem log_map (f : α → β) (schedule : List (Nat × Instant)) (p : Pool α) (st : σ) :
    log engine schedule (p.map (·.map f)) st = log engine schedule p st := by
  induction schedule generalizing p st with
  | nil => rfl
  | cons x schedule ih => simp only [log, asked?_map, step_map, ih]

/-! ### Courses in a run -/

def own (i : Nat) (log : List (Entry σ)) : List (Entry σ) := log.filter (·.caller == i)

def others (i : Nat) (log : List (Entry σ)) : List (Entry σ) := log.filter (·.caller != i)

/-- The first of the statements of one call stands somewhere among the entries, with those of its
statements that remain behind it. -/
theorem split_own {i : Nat} {es rest : List (Entry σ)} {e : Entry σ} (h : own i es = e :: rest) :
    ∃ before after, es = before ++ e :: after ∧ own i before = [] ∧ e.caller = i ∧
      own i after = rest := by
  obtain ⟨before, after, rfl, hnone, he, hrest⟩ := List.filter_eq_cons_iff.mp h
  exact ⟨before, after, rfl, List.filter_eq_nil_iff.mpr hnone, by simpa using he, hrest⟩

/-- So does the last of them, with none of its statements behind it. -/
theorem split_own_last {i : Nat} {es first : List (Entry σ)} {e : Entry σ}
    (h : own i es = first ++ [e]) :
    ∃ before after, es = before ++ e :: after ∧ own i before = first ∧ e.caller = i ∧
      own i after = [] := by
  obtain ⟨earlier, later, rfl, hfirst, hlast⟩ := List.filter_eq_append_iff.mp h
  obtain ⟨between, after, rfl, hnone, he, hafter⟩ := split_own hlast
  refine ⟨earlier ++ between, after, by simp, ?_, he, hafter⟩
  rw [own, List.filter_append, hfirst]
  exact (congrArg _ hnone).trans (List.append_nil first)

/-- Where the statements of one call change nothing, the others follow each other without them. -/
theorem chain_others {i : Nat} {es : List (Entry σ)} {st st' : σ} (h : Chain engine st es st')
    (hown : ∀ e ∈ own i es, (engine e.statement e.before).2 = e.before) :
    Chain engine st (others i es) st' := by
  induction es generalizing st with
  | nil => exact h
  | cons e es ih =>
    obtain ⟨rfl, h⟩ := h
    by_cases hcaller : e.caller = i
    · have hmine : own i (e :: es) = e :: own i es := by simp [own, hcaller]
      have hnot : others i (e :: es) = others i es := by simp [others, hcaller]
      rw [hmine, List.forall_mem_cons] at hown
      rw [hown.1] at h
      rw [hnot]
      exact ih h hown.2
    · have hmine : own i (e :: es) = own i es := by simp [own, hcaller]
      have hnot : others i (e :: es) = e :: others i es := by simp [others, hcaller]
      rw [hmine] at hown
      rw [hnot]
      exact ⟨rfl, ih h hown⟩

/-- What each of these statements keeps, all of them keep. -/
theorem chain_keeps {I : σ → Prop} {es : List (Entry σ)} {st st' : σ}
    (h : Chain engine st es st')
    (step : ∀ e ∈ es, I e.before → I (engine e.statement e.before).2) (start : I st) : I st' := by
  induction es generalizing st with
  | nil =>
    obtain rfl : st' = st := h
    exact start
  | cons e es ih =>
    obtain ⟨rfl, h⟩ := h
    obtain ⟨hfirst, hrest⟩ := List.forall_mem_cons.mp step
    exact ih h hrest (hfirst start)

/-- Statements that change nothing lead nowhere. -/
theorem chain_quiet {es : List (Entry σ)} {st st' : σ} (h : Chain engine st es st')
    (hquiet : ∀ e ∈ es, (engine e.statement e.before).2 = e.before) : st' = st :=
  chain_keeps (I := (· = st)) h (fun e he hst => (hquiet e he).trans hst) rfl

/-- Each of these statements meets a state of which this is so as well. -/
theorem chain_meets {I : σ → Prop} {es : List (Entry σ)} {st st' : σ} (h : Chain engine st es st')
    (step : ∀ e ∈ es, I e.before → I (engine e.statement e.before).2) (start : I st) :
    ∀ e ∈ es, I e.before := by
  intro e he
  obtain ⟨first, rest, rfl⟩ := List.append_of_mem he
  obtain ⟨mid, hfirst, hmet, _⟩ := chain_append.mp h
  rw [hmet]
  exact chain_keeps hfirst (fun e he => step e (List.mem_append_left _ he)) start

/-- What holds at the start and is passed on from statement to statement holds at the end; it may
look at the entries so far. -/
theorem chain_induction {motive : List (Entry σ) → σ → Prop} {es : List (Entry σ)} {st st' : σ}
    (h : Chain engine st es st') (start : motive [] st)
    (step : ∀ first e rest, es = first ++ e :: rest → motive first e.before →
      motive (first ++ [e]) (engine e.statement e.before).2) : motive es st' := by
  suffices hprefix : ∀ first rest mid, es = first ++ rest → Chain engine st first mid →
      motive first mid from hprefix es [] st' (List.append_nil es).symm h
  intro first
  induction first using List.reverseRecOn with
  | nil =>
    intro rest mid _ hmid
    obtain rfl : mid = st := hmid
    exact start
  | append_singleton first e ih =>
    intro rest mid hes hmid
    rw [List.append_assoc, List.singleton_append] at hes
    obtain ⟨met, hfirst, rfl, rfl⟩ := chain_append.mp hmid
    exact step first e rest hes (ih (e :: rest) _ hes hfirst)

/-- Each call of the pool is one that stood there in the beginning, and has gone over its own
entries of the log. -/
def OnCourse (engine : Engine σ) (clock : Nat → Instant → Prop) (start : Pool α)
    (log : List (Entry σ)) (p : Pool α) : Prop :=
  ∀ (i : Nat) (f : Flight α), p[i]? = some f →
    (∃ g, start[i]? = some g ∧ g.call = f.call) ∧
      f.call.Course engine (clock i) f.call (own i log) f.rest

/-- A call goes on over entries of its own, and the others stay where they are. -/
theorem OnCourse.set {clock : Nat → Instant → Prop} {start p : Pool α} {log es : List (Entry σ)}
    {i : Nat} {f : Flight α} {rest : Call α} (h : OnCourse engine clock start log p)
    (hf : p[i]? = some f) (hes : ∀ e ∈ es, e.caller = i)
    (hrest : f.call.Course engine (clock i) f.rest es rest) :
    OnCourse engine clock start (log ++ es) (p.set i ⟨f.call, rest⟩) := by
  intro j g hg
  have hown : own j (log ++ es) = own j log ++ own j es := List.filter_append ..
  rw [hown]
  rcases getElem?_set_cases hg with ⟨rfl, rfl⟩ | ⟨hij, hold⟩
  · have hall : own i es = es := List.filter_eq_self.mpr fun e he => beq_iff_eq.mpr (hes e he)
    obtain ⟨hcall, hcourse⟩ := h i f hf
    rw [hall]
    exact ⟨hcall, hcourse.trans hrest⟩
  · have hnone : own j es = [] := List.filter_eq_nil_iff.mpr fun e he => by simp [hes e he, hij]
    rw [hnone, List.append_nil]
    exact h j g hold

/-- Each call of a run that began with it has gone over its own entries. -/
theorem course_run (schedule : List (Nat × Instant)) (p : Pool α) (st : σ)
    (hstart : ∀ f ∈ p, f.rest = f.call) :
    OnCourse engine (fun i now => (i, now) ∈ schedule) p (log engine schedule p st)
      (run engine schedule p st).1 := by
  refine run_induction engine schedule p st
    (motive := fun _ log q _ => OnCourse engine (fun i now => (i, now) ∈ schedule) p log q) ?_ ?_
  · intro i f hf
    refine ⟨⟨f, hf, rfl⟩, ?_⟩
    rw [hstart f (List.mem_of_getElem? hf)]
    exact .stop _
  · intro made log q st i now entry q' st' hmem hq hmoves
    cases hmoves with
    | idle =>
      rw [Option.toList_none, List.append_nil]
      exact hq
    | ask f s next hf hrest =>
      refine hq.set hf (by simp) ?_
      rw [hrest]
      exact .ask (.stop _)
    | clock f next hf hrest =>
      refine hq.set hf (by simp) ?_
      rw [hrest]
      exact .clock hmem (.stop _)
    | again f hf hrest =>
      refine hq.set hf (by simp) ?_
      rw [hrest]
      exact .again (.stop _)

end Pool

/-! ### Calls that may fail -/

namespace Service

variable {α β : Type} {clock : Instant → Prop} {es : List (Pool.Entry Store)} {s s' : Statement}

/-- What is done to the answer of a call is done where the call is done. -/
theorem run_bind_pure (x : Service α) (g : α → β) :
    (x >>= fun a => pure (g a)).run = x.run.map (·.map g) := by
  refine congrArg (Call.bind x.run) (funext fun r => ?_)
  cases r <;> rfl

def AsksOnly (P : Statement → Prop) (x : Service α) : Prop := Call.AsksOnly P x.run

section
variable {P : Statement → Prop}

@[simp] theorem asksOnly_pure (a : α) : AsksOnly P (pure a : Service α) := trivial

theorem asksOnly_bind {x : Service α} {f : α → Service β} (hx : x.AsksOnly P)
    (hf : ∀ a, (f a).AsksOnly P) : (x >>= f).AsksOnly P := by
  apply Call.asksOnly_bind hx
  intro r
  cases r with
  | ok a => exact hf a
  | error e => trivial

theorem asksOnly_ask_bind {f : s.Answer → Service β} (hs : P s) (hf : ∀ a, (f a).AsksOnly P) :
    AsksOnly P (bind (α := no_index s.Answer) (ask s) f) :=
  ⟨hs, fun r => by
    cases r with
    | ok a => exact hf a
    | error e => trivial⟩

theorem asksOnly_ask (hs : P s) : AsksOnly P (ask s) := ⟨hs, fun _ => trivial⟩

theorem asksOnly_clock_bind {f : Instant → Service β} (hf : ∀ now, (f now).AsksOnly P) :
    (Service.clock >>= f).AsksOnly P := hf

theorem asksOnly_attempt {x : Service α} (hx : x.AsksOnly P) : (attempt x).AsksOnly P :=
  Call.asksOnly_bind hx fun _ => trivial

theorem asksOnly_settle_bind {r : Except Failure α} {f : α → Service β}
    (hf : ∀ a, (f a).AsksOnly P) : (settle r >>= f).AsksOnly P := by
  cases r with
  | ok a => exact hf a
  | error e => trivial

end

/-! ### Calls that may be under way -/

section
variable {whole rest : Call (Except Failure β)}

theorem course_settle {r : Except Failure β}
    (h : Call.Course Store.engine clock whole (settle r).run es rest) :
    es = [] ∧ rest = .done r := by
  cases r <;> (cases h; exact ⟨rfl, rfl⟩)

theorem course_clock_bind {f : Instant → Service β}
    (h : Call.Course Store.engine clock whole (Service.clock >>= f).run es rest) :
    (es = [] ∧ ∀ a, rest ≠ .done a) ∨
    ∃ now, clock now ∧ Call.Course Store.engine clock whole (f now).run es rest := by
  cases h with
  | stop => exact .inl ⟨rfl, nofun⟩
  | clock hnow h => exact .inr ⟨_, hnow, h⟩

theorem course_ask_bind {f : s.Answer → Service β}
    (h : Call.Course Store.engine clock whole (bind (α := no_index s.Answer) (ask s) f).run
      es rest) :
    (es = [] ∧ ∀ a, rest ≠ .done a) ∨
    ∃ i st later, es = ⟨i, s, st⟩ :: later ∧
      Call.Course Store.engine clock whole (settle (Store.engine s st).1 >>= f).run later rest := by
  cases h with
  | stop => exact .inl ⟨rfl, nofun⟩
  | ask h => exact .inr ⟨_, _, _, rfl, h⟩

end

/-! ### Calls that have ended -/

def Ends (clock : Instant → Prop) (x : Service α) (es : List (Pool.Entry Store))
    (r : Except Failure α) : Prop :=
  ∃ whole, Call.Course Store.engine clock whole x.run es (.done r)

@[simp] theorem ends_pure {a : α} {r : Except Failure α} :
    (pure a : Service α).Ends clock es r ↔ es = [] ∧ r = .ok a := by
  constructor
  · intro h
    obtain ⟨_, h⟩ := h
    cases h
    exact ⟨rfl, rfl⟩
  · intro h
    obtain ⟨rfl, rfl⟩ := h
    exact ⟨.again, .stop _⟩

@[simp] theorem ends_throw {e : Failure} {r : Except Failure α} :
    (throw e : Service α).Ends clock es r ↔ es = [] ∧ r = .error e := by
  constructor
  · intro h
    obtain ⟨_, h⟩ := h
    cases h
    exact ⟨rfl, rfl⟩
  · intro h
    obtain ⟨rfl, rfl⟩ := h
    exact ⟨.again, .stop _⟩

@[simp] theorem ends_settle {r r' : Except Failure α} :
    (settle r').Ends clock es r ↔ es = [] ∧ r = r' := by
  cases r' with
  | ok a => exact ends_pure
  | error e => exact ends_throw

/-- A call that succeeds has got past each result on its way. -/
theorem ends_settle_bind_ok {r : Except Failure α} {f : α → Service β} {b : β}
    (h : (settle r >>= f).Ends clock es (.ok b)) :
    ∃ a, r = .ok a ∧ (f a).Ends clock es (.ok b) := by
  cases r with
  | ok a => exact ⟨a, rfl, h⟩
  | error e =>
    rw [settle_error, throw_bind, ends_throw] at h
    cases h.2

theorem ends_clock_bind {f : Instant → Service β} {r : Except Failure β} :
    (Service.clock >>= f).Ends clock es r ↔ ∃ now, clock now ∧ (f now).Ends clock es r := by
  constructor
  · intro h
    obtain ⟨whole, h⟩ := h
    cases h with
    | clock hnow h => exact ⟨_, hnow, whole, h⟩
  · intro h
    obtain ⟨now, hnow, whole, h⟩ := h
    exact ⟨whole, .clock hnow h⟩

/-- A statement of the call meets some state, and the call goes on with the answer that it gets. -/
theorem ends_ask_bind {f : s.Answer → Service β} {r : Except Failure β} :
    Ends clock (bind (α := no_index s.Answer) (ask s) f) es r ↔ ∃ i st rest,
      es = ⟨i, s, st⟩ :: rest ∧ (settle (Store.engine s st).1 >>= f).Ends clock rest r := by
  constructor
  · intro h
    obtain ⟨whole, h⟩ := h
    cases h with
    | ask h => exact ⟨_, _, _, rfl, whole, h⟩
  · intro h
    obtain ⟨i, st, rest, rfl, whole, h⟩ := h
    exact ⟨whole, .ask h⟩

theorem ends_ask {r : Except Failure s.Answer} (h : Ends clock (ask s) es r) :
    ∃ i st, es = [⟨i, s, st⟩] ∧ r = (Store.engine s st).1 := by
  obtain ⟨_, h⟩ := h
  cases h with
  | ask h =>
    cases h
    exact ⟨_, _, rfl, rfl⟩

section
variable {P : Statement → Prop} {x : Service α}

theorem AsksOnly.ends {r : Except Failure α} (hx : x.AsksOnly P) (h : x.Ends clock es r) :
    ∀ e ∈ es, P e.statement := by
  obtain ⟨_, h⟩ := h
  exact h.asks_of_mem hx

theorem ends_attempt_bind {f : Except Failure α → Service β} {r : Except Failure β}
    (hx : x.AsksOnly P) (h : (attempt x >>= f).Ends clock es r) : ∃ first second a,
      es = first ++ second ∧ x.Ends clock first a ∧ (f a).Ends clock second r := by
  obtain ⟨whole, h⟩ := h
  rw [run_attempt_bind] at h
  obtain ⟨first, second, a, hes, hfirst, hsecond⟩ := h.of_bind hx
  exact ⟨first, second, a, hes, ⟨x.run, hfirst _⟩, whole, hsecond⟩

theorem ends_bind_pure {g : α → β} {r : Except Failure β} (hx : x.AsksOnly P)
    (h : (x >>= fun a => pure (g a)).Ends clock es r) : ∃ a, x.Ends clock es a ∧ r = a.map g := by
  obtain ⟨whole, h⟩ := h
  obtain ⟨first, second, a, rfl, hfirst, hsecond⟩ := Call.Course.of_bind hx h
  have hstops : second = [] ∧ r = a.map g := by
    cases a <;> (cases hsecond; exact ⟨rfl, rfl⟩)
  obtain ⟨rfl, rfl⟩ := hstops
  rw [List.append_nil]
  exact ⟨a, ⟨x.run, hfirst _⟩, rfl⟩

end

def ComesTo (clock : Instant → Prop) (x : Service α) (es : List (Pool.Entry Store))
    (s : Statement) : Prop :=
  ∃ whole next, Call.Course Store.engine clock whole x.run es (.ask s next)

@[simp] theorem comesTo_throw {e : Failure} : ¬ (throw e : Service α).ComesTo clock es s := by
  intro h
  obtain ⟨_, _, h⟩ := h
  cases h

theorem comesTo_clock_bind {f : Instant → Service β} :
    (Service.clock >>= f).ComesTo clock es s ↔ ∃ now, clock now ∧ (f now).ComesTo clock es s := by
  constructor
  · intro h
    obtain ⟨whole, next, h⟩ := h
    cases h with
    | clock hnow h => exact ⟨_, hnow, whole, next, h⟩
  · intro h
    obtain ⟨now, hnow, whole, next, h⟩ := h
    exact ⟨whole, next, .clock hnow h⟩

theorem comesTo_settle_bind {r : Except Failure α} {f : α → Service β} :
    (settle r >>= f).ComesTo clock es s ↔ ∃ a, r = .ok a ∧ (f a).ComesTo clock es s := by
  cases r with
  | ok a => simp
  | error e => simp

theorem comesTo_ask_bind {f : s.Answer → Service β} :
    ComesTo clock (bind (α := no_index s.Answer) (ask s) f) es s' ↔ es = [] ∧ s' = s ∨
      ∃ i st rest, es = ⟨i, s, st⟩ :: rest ∧
        (settle (Store.engine s st).1 >>= f).ComesTo clock rest s' := by
  constructor
  · intro h
    obtain ⟨whole, next, h⟩ := h
    cases h with
    | stop => exact .inl ⟨rfl, rfl⟩
    | ask h => exact .inr ⟨_, _, _, rfl, whole, next, h⟩
  · intro h
    rcases h with ⟨rfl, rfl⟩ | ⟨i, st, rest, rfl, whole, next, h⟩
    · exact ⟨.again, _, .stop _⟩
    · exact ⟨whole, next, .ask h⟩

theorem AsksOnly.comesTo {P : Statement → Prop} {x : Service α} (h : x.AsksOnly P)
    (hx : x.ComesTo clock es s) : P s := by
  obtain ⟨_, _, hx⟩ := hx
  exact (hx.asksOnly h).1

end Service
end AlertDesk
