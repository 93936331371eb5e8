import AlertDesk.Proofs.Claims
import AlertDesk.Proofs.Courses

/-!
The turns of one call in a run. What each step of a call keeps, by the turns it has had and the
statements it has asked, is known of it after every run, whatever is done for the others in between.
So a call that ends after some number of steps has ended when it has had as many turns.
-/
namespace AlertDesk

namespace Call

variable {α β σ : Type}

/-- What is known of a call by its turns and its own entries is kept by each of its steps. The
states that its statements meet are of one kind, and the call starts over as `whole`. -/
structure StepsKeep (engine : Engine σ) (met : σ → Prop) (i : Nat) (whole : Call β)
    (known : Nat → List (Pool.Entry σ) → Call β → Prop) : Prop where
  done : ∀ {turns es a}, known turns es (.done a) → known (turns + 1) es (.done a)
  ask : ∀ {turns es s next st}, met st → known turns es (.ask s next) →
    known (turns + 1) (es ++ [⟨i, s, st⟩]) (next (engine s st).1)
  clock : ∀ {turns es next} now, known turns es (.clock next) → known (turns + 1) es (next now)
  again : ∀ {turns es}, known turns es .again → known (turns + 1) es whole

def EndsWithin : Call α → Nat → Prop
  | .done _, _ => True
  | .ask _ next, n + 1 => ∀ r, (next r).EndsWithin n
  | .clock next, n + 1 => ∀ t, (next t).EndsWithin n
  | _, _ => False

theorem EndsWithin.mono {c : Call α} {n m : Nat} (h : c.EndsWithin n) (hle : n ≤ m) :
    c.EndsWithin m := by
  induction c generalizing n m with
  | done a => cases m <;> trivial
  | ask s next ih =>
    cases n with
    | zero => exact h.elim
    | succ n =>
      obtain ⟨m, rfl⟩ : ∃ k, m = k + 1 := ⟨m - 1, by omega⟩
      exact fun r => ih r (h r) (by omega)
  | clock next ih =>
    cases n with
    | zero => exact h.elim
    | succ n =>
      obtain ⟨m, rfl⟩ : ∃ k, m = k + 1 := ⟨m - 1, by omega⟩
      exact fun t => ih t (h t) (by omega)
  | again => cases n <;> exact h.elim

theorem EndsWithin.bind {c : Call α} {f : α → Call β} {n m : Nat} (hc : c.EndsWithin n)
    (hf : ∀ a, (f a).EndsWithin m) : (c.bind f).EndsWithin (n + m) := by
  induction c generalizing n with
  | done a => exact (hf a).mono (Nat.le_add_left m n)
  | ask s next ih =>
    cases n with
    | zero => exact hc.elim
    | succ n =>
      rw [Nat.add_right_comm]
      exact fun r => ih r (hc r)
  | clock next ih =>
    cases n with
    | zero => exact hc.elim
    | succ n =>
      rw [Nat.add_right_comm]
      exact fun t => ih t (hc t)
  | again => cases n <;> exact hc.elim

/-- Each step brings a call nearer to its end. -/
theorem stepsKeep_endsWithin (engine : Engine σ) (i n : Nat) (whole : Call β) :
    StepsKeep engine (fun _ => True) i whole fun turns _ rest => rest.EndsWithin (n - turns) where
  done _ := EndsWithin.mono (n := 0) trivial (Nat.zero_le _)
  ask {turns _ _ _ _} _ h := by
    rw [Nat.sub_add_eq]
    cases hleft : n - turns with
    | zero => exact (hleft ▸ h).elim
    | succ left => exact (hleft ▸ h) _
  clock {turns _ _} now h := by
    rw [Nat.sub_add_eq]
    cases hleft : n - turns with
    | zero => exact (hleft ▸ h).elim
    | succ left => exact (hleft ▸ h) now
  again {turns _} h := by cases hleft : n - turns <;> exact (hleft ▸ h).elim

end Call

namespace Pool

variable {α β σ : Type} {engine : Engine σ} {p : Pool α} {st : σ} {i j n : Nat} {whole : Call β}
  {g : β → α} {met : σ → Prop} {known : Nat → List (Entry σ) → Call β → Prop}

theorem own_asked?_of_ne (hj : j ≠ i) (p : Pool α) (st : σ) :
    own i (p.asked? j st).toList = [] := by
  cases hasked : p.asked? j st with
  | none => rfl
  | some e =>
    obtain ⟨hcaller, _⟩ := of_asked? hasked
    simp [own, hcaller, hj]

theorem known_step (hkeep : Call.StepsKeep engine met i whole known) (hst : met st) {turns : Nat}
    {es : List (Entry σ)} {rest : Call β} (hknown : known turns es rest)
    (hp : p[i]? = some (Flight.map g ⟨whole, rest⟩)) (now : Instant) :
    ∃ rest', (Flight.step engine now ⟨whole, rest⟩ st).1 = ⟨whole, rest'⟩ ∧
      known (turns + 1) (es ++ own i (p.asked? i st).toList) rest' := by
  have hquiet (hasked : p.asked? i st = none) : es ++ own i (p.asked? i st).toList = es := by
    rw [hasked]
    exact List.append_nil es
  cases rest with
  | done a =>
    have hasked : p.asked? i st = none := by rw [asked?, hp]; rfl
    exact ⟨.done a, rfl, by rw [hquiet hasked]; exact hkeep.done hknown⟩
  | ask s next =>
    have hasked : p.asked? i st = some ⟨i, s, st⟩ := by rw [asked?, hp]; rfl
    have hown : own i (p.asked? i st).toList = [⟨i, s, st⟩] := by simp [hasked, own]
    exact ⟨next (engine s st).1, rfl, by rw [hown]; exact hkeep.ask hst hknown⟩
  | clock next =>
    have hasked : p.asked? i st = none := by rw [asked?, hp]; rfl
    exact ⟨next now, rfl, by rw [hquiet hasked]; exact hkeep.clock now hknown⟩
  | again =>
    have hasked : p.asked? i st = none := by rw [asked?, hp]; rfl
    exact ⟨whole, rfl, by rw [hquiet hasked]; exact hkeep.again hknown⟩

/-- What the steps of a call keep is known of it after every run, whatever is done for the
others. -/
theorem known_run (hkeep : Call.StepsKeep engine met i whole known)
    (hmet : ∀ s st, met st → met (engine s st).2) (hst : met st)
    (hf : p[i]? = some (Flight.map g (.start whole))) (start : known 0 [] whole)
    (schedule : List (Nat × Instant)) :
    ∃ rest, (run engine schedule p st).1[i]? = some (Flight.map g ⟨whole, rest⟩) ∧
      known (Sessions.turns schedule i) (own i (log engine schedule p st)) rest := by
  induction schedule using List.reverseRecOn with
  | nil => exact ⟨whole, hf, start⟩
  | append_singleton schedule x ih =>
    obtain ⟨j, now⟩ := x
    obtain ⟨rest, hp, hknown⟩ := ih
    have hmid : met (run engine schedule p st).2 :=
      chain_keeps (chain_log engine schedule p st) (fun e _ => hmet e.statement e.before) hst
    have hlog : own i (log engine (schedule ++ [(j, now)]) p st) =
        own i (log engine schedule p st) ++
        own i ((run engine schedule p st).1.asked? j (run engine schedule p st).2).toList := by
      rw [log_append, own, List.filter_append]
      simp [log, own]
    rw [run_append, hlog]
    by_cases hj : j = i
    · subst hj
      obtain ⟨rest', hrest, hknown'⟩ := known_step hkeep hmid hknown hp now
      refine ⟨rest', ?_, by rwa [Sessions.turns_concat_self]⟩
      refine (getElem?_step hp j now).trans (congrArg some ?_)
      rw [if_pos rfl, Flight.step_map, hrest]
    · rw [Sessions.turns_concat_of_ne schedule hj, own_asked?_of_ne hj, List.append_nil]
      exact ⟨rest, (getElem?_step hp j now).trans (congrArg some (if_neg hj)), hknown⟩

/-- A call that ends within so many steps has ended when it has had as many turns. -/
theorem done_of_turns {schedule : List (Nat × Instant)}
    (hf : p[i]? = some (Flight.map g (.start whole))) (hends : whole.EndsWithin n)
    (hturns : n ≤ Sessions.turns schedule i) :
    ∃ a, (run engine schedule p st).1[i]? = some (Flight.map g ⟨whole, .done a⟩) := by
  obtain ⟨rest, hp, hrest⟩ := known_run (Call.stepsKeep_endsWithin engine i n whole)
    (fun _ _ h => h) trivial hf hends schedule
  rw [Nat.sub_eq_zero_of_le hturns] at hrest
  cases rest with
  | done a => exact ⟨a, hp⟩
  | ask | clock | again => exact hrest.elim

end Pool

namespace Service

variable {α β : Type} {n m : Nat}

def EndsWithin (x : Service α) (n : Nat) : Prop := Call.EndsWithin x.run n

theorem endsWithin_settle (r : Except Failure α) : (settle r).EndsWithin n := by
  cases n <;> trivial

theorem endsWithin_ask (s : Statement) : EndsWithin (α := no_index s.Answer) (ask s) 1 :=
  fun _ => trivial

theorem EndsWithin.bind {x : Service α} {f : α → Service β} (hx : x.EndsWithin n)
    (hf : ∀ a, (f a).EndsWithin m) : (x >>= f).EndsWithin (n + m) := by
  apply Call.EndsWithin.bind hx
  intro r
  cases r with
  | ok a => exact hf a
  | error e => exact endsWithin_settle (.error e)

end Service

end AlertDesk
