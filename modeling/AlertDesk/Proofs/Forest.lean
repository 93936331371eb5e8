import AlertDesk.Proofs.Effects

/-!
Executions as a forest. Where each sub-agent comes after its parent, parent links lead back to a
top-level execution, in fewer steps than there are executions. So the removal of an execution, which
follows the links that many times at most, takes everything below it, and no sub-agent stays behind
without its parent.
-/
namespace AlertDesk.Store

/-- Each sub-agent comes after its parent, and works in the same stage. -/
def ParentsFirst (rows : List ExecutionRow) : Prop :=
  ∀ before r after, rows = before ++ r :: after → ∀ p, r.parentId = some p →
    ∃ parent ∈ before, parent.id = p ∧ parent.stageId = r.stageId

def parentOf? (rows : List ExecutionRow) (r : ExecutionRow) : Option ExecutionRow :=
  r.parentId.bind fun p => rows.find? (·.id == p)

def ancestor? (rows : List ExecutionRow) : Nat → ExecutionRow → Option ExecutionRow
  | 0, r => some r
  | steps + 1, r => (parentOf? rows r).bind (ancestor? rows steps)

theorem isUnder_succ (rows : List ExecutionRow) (root : String) (steps : Nat) (r : ExecutionRow) :
    isUnder rows root (steps + 1) r =
      (r.id == root || (parentOf? rows r).any (isUnder rows root steps)) := by
  rw [isUnder, parentOf?]
  cases hp : r.parentId with
  | none => simp
  | some p =>
    simp only [Option.bind_some]
    cases rows.find? (·.id == p) <;> rfl

section
variable {rows before after : List ExecutionRow} {r : ExecutionRow} {root : String}

/-- A parent stands before its sub-agents, and is the one that the link finds. -/
theorem ParentsFirst.parentOf? (h : ParentsFirst rows) (hids : (rows.map (·.id)).Nodup)
    (hr : rows = before ++ r :: after) {p : String} (hp : r.parentId = some p) :
    ∃ parent first rest, before = first ++ parent :: rest ∧ Store.parentOf? rows r = some parent ∧
      parent.id = p ∧ parent.stageId = r.stageId := by
  obtain ⟨parent, hmem, rfl, hstage⟩ := h before r after hr p hp
  obtain ⟨first, rest, rfl⟩ := List.append_of_mem hmem
  refine ⟨parent, first, rest, rfl, ?_, rfl, hstage⟩
  have hthere : parent ∈ rows := by rw [hr]; simp
  rw [Store.parentOf?, hp]
  exact find?_key hids hthere rfl

/-- Following links more often than there are executions before this one finds nothing new. -/
theorem ParentsFirst.isUnder_eq (h : ParentsFirst rows) (hids : (rows.map (·.id)).Nodup)
    (hr : rows = before ++ r :: after) {steps : Nat} (hsteps : before.length ≤ steps) :
    isUnder rows root steps r = isUnder rows root before.length r := by
  induction hlength : before.length using Nat.strongRecOn
    generalizing before r after steps with
  | ind n ih =>
    subst hlength
    cases hp : r.parentId with
    | none =>
      have halone : Store.parentOf? rows r = none := by rw [Store.parentOf?, hp]; rfl
      have hself (steps : Nat) : isUnder rows root steps r = (r.id == root) := by
        cases steps with
        | zero => rfl
        | succ steps => rw [isUnder_succ, halone, Option.any_none, Bool.or_false]
      rw [hself, hself]
    | some p =>
      obtain ⟨parent, first, rest, rfl, hparent, _⟩ := h.parentOf? hids hr hp
      have hfirst : first.length < (first ++ parent :: rest).length := by simp
      have hwhere : rows = first ++ parent :: (rest ++ r :: after) := by rw [hr]; simp
      obtain ⟨steps, rfl⟩ : ∃ m, steps = m + 1 := ⟨steps - 1, by omega⟩
      obtain ⟨enough, henough⟩ : ∃ m, (first ++ parent :: rest).length = m + 1 :=
        ⟨(first ++ parent :: rest).length - 1, by omega⟩
      have hup (m : Nat) (hm : first.length ≤ m) :
          isUnder rows root m parent = isUnder rows root first.length parent :=
        ih _ hfirst hwhere hm rfl
      rw [henough, isUnder_succ, isUnder_succ, hparent, Option.any_some, Option.any_some,
        hup steps (by omega), hup enough (by omega)]

/-- What lies below a removed execution is removed with it. -/
theorem ParentsFirst.isUnder_of_parent (h : ParentsFirst rows) (hids : (rows.map (·.id)).Nodup)
    (hr : rows = before ++ r :: after) {p : String} (hp : r.parentId = some p)
    {parent : ExecutionRow} (hparent : parent ∈ before) (hid : parent.id = p)
    (hunder : isUnder rows root rows.length parent = true) :
    isUnder rows root rows.length r = true := by
  obtain ⟨first, rest, rfl⟩ := List.append_of_mem hparent
  have hwhere : rows = first ++ parent :: (rest ++ r :: after) := by rw [hr]; simp
  have hfound : Store.parentOf? rows r = some parent := by
    rw [Store.parentOf?, hp]
    exact find?_key hids (by rw [hwhere]; simp) hid
  obtain ⟨steps, hsteps⟩ : ∃ m, rows.length = m + 1 :=
    ⟨rows.length - 1, by rw [hr]; simp; omega⟩
  have hfirst : first.length ≤ steps := by
    have hlength := congrArg List.length hr
    simp at hlength
    omega
  rw [h.isUnder_eq hids hwhere (by omega)] at hunder
  rw [hsteps, isUnder_succ, hfound, Option.any_some, h.isUnder_eq hids hwhere hfirst, hunder,
    Bool.or_true]

/-- From each execution, links lead to a top-level one of the same stage. -/
theorem ParentsFirst.ancestor? (h : ParentsFirst rows) (hids : (rows.map (·.id)).Nodup)
    (hr : rows = before ++ r :: after) :
    ∃ steps top, Store.ancestor? rows steps r = some top ∧ top ∈ rows ∧ top.parentId = none ∧
      top.stageId = r.stageId := by
  induction hlength : before.length using Nat.strongRecOn
    generalizing before r after with
  | ind n ih =>
    subst hlength
    cases hp : r.parentId with
    | none => exact ⟨0, r, rfl, by rw [hr]; simp, hp, rfl⟩
    | some p =>
      obtain ⟨parent, first, rest, rfl, hparent, _, hstage⟩ := h.parentOf? hids hr hp
      have hfirst : first.length < (first ++ parent :: rest).length := by simp
      have hwhere : rows = first ++ parent :: (rest ++ r :: after) := by rw [hr]; simp
      obtain ⟨steps, top, hsteps, hmem, htop, hsame⟩ := ih _ hfirst hwhere rfl
      refine ⟨steps + 1, top, ?_, hmem, htop, hsame.trans hstage⟩
      rw [Store.ancestor?, hparent]
      exact hsteps

/-! ### Changes of a forest -/

theorem ParentsFirst.append (h : ParentsFirst rows) {new : ExecutionRow}
    (hnew : ∀ p, new.parentId = some p → ∃ parent ∈ rows, parent.id = p ∧
      parent.stageId = new.stageId) : ParentsFirst (rows ++ [new]) := by
  intro before r after hr p hp
  rcases List.eq_nil_or_concat after with rfl | ⟨after', last, rfl⟩
  · obtain ⟨rfl, hlast⟩ := List.append_inj' hr rfl
    cases hlast
    exact hnew p hp
  · rw [List.concat_eq_append, ← List.cons_append, ← List.append_assoc] at hr
    exact h before r after' (List.append_inj' hr rfl).1 p hp

theorem ParentsFirst.map (h : ParentsFirst rows) {change : ExecutionRow → ExecutionRow}
    (hchange : ∀ r, (change r).id = r.id ∧ (change r).stageId = r.stageId ∧
      (change r).parentId = r.parentId) : ParentsFirst (rows.map change) := by
  intro before r after hr p hp
  obtain ⟨before, rest, rfl, rfl, hrest⟩ := List.map_eq_append_iff.mp hr
  obtain ⟨r, after, rfl, rfl, rfl⟩ := List.map_eq_cons_iff.mp hrest
  rw [(hchange r).2.2] at hp
  obtain ⟨parent, hparent, hid, hstage⟩ := h before r after rfl p hp
  refine ⟨change parent, List.mem_map_of_mem hparent, ?_, ?_⟩
  · rw [(hchange parent).1, hid]
  · rw [(hchange parent).2.1, (hchange r).2.1, hstage]

theorem ParentsFirst.removed (h : ParentsFirst rows) (hids : (rows.map (·.id)).Nodup)
    (root : String) :
    ParentsFirst (rows.filter fun r => !isUnder rows root rows.length r) := by
  intro before r after hr p hp
  obtain ⟨first, rest, hrows, rfl, hrest⟩ := List.filter_eq_append_iff.mp hr
  obtain ⟨gone, after', rfl, hgone, hr, _⟩ := List.filter_eq_cons_iff.mp hrest
  have hwhere : rows = (first ++ gone) ++ r :: after' := by rw [hrows, List.append_assoc]
  obtain ⟨parent, hparent, hid, hstage⟩ := h _ r after' hwhere p hp
  have hkept : (!isUnder rows root rows.length parent) = true := by
    rw [Bool.not_eq_true', Bool.eq_false_iff]
    intro hunder
    rw [h.isUnder_of_parent hids hwhere hp hparent hid hunder] at hr
    cases hr
  refine ⟨parent, ?_, hid, hstage⟩
  rcases List.mem_append.mp hparent with hfirst | hrest
  · exact List.mem_filter.mpr ⟨hfirst, hkept⟩
  · exact absurd hkept (hgone parent hrest)

end
end AlertDesk.Store
