import AlertDesk.Store.Statement
import Mathlib.Data.Prod.Lex
import Mathlib.Data.List.Lex
import Mathlib.Data.String.Basic

/-!
The queue. Sessions that wait are worked off in the order of their submission, and in the order of
their ids where the times of submission are equal; the row that is selected next is the head of
that list.
-/
namespace AlertDesk

namespace SessionRow

def place (r : SessionRow) : List Char ×ₗ String := toLex (r.createdAt.chars, r.id)

theorem precedes_iff (a b : SessionRow) : a.precedes b = true ↔ a.place < b.place := by
  have hstamp : (a.createdAt == b.createdAt) = true ↔ a.createdAt.chars = b.createdAt.chars := by
    rw [beq_iff_eq]
    exact ⟨congrArg Stamp.chars, fun h => congrArg Stamp.mk h⟩
  rw [precedes, place, place, Prod.Lex.toLex_lt_toLex, Bool.or_eq_true, Bool.and_eq_true, hstamp,
    decide_eq_true_iff, decide_eq_true_iff]
  exact Iff.rfl

theorem place_ne {a b : SessionRow} (h : a.id ≠ b.id) : a.place ≠ b.place := by
  intro hplace
  exact h (Prod.mk.inj (toLex.injective hplace)).2

theorem first?_eq_none {rows : List SessionRow} (h : first? rows = none) : rows = [] := by
  cases rows with
  | nil => rfl
  | cons r rest =>
    simp only [first?] at h
    cases hrest : first? rest with
    | none => simp [hrest] at h
    | some s =>
      simp only [hrest] at h
      split at h <;> cases h

/-- The row that is first is preceded by no other. -/
theorem first?_spec {rows : List SessionRow} {m : SessionRow} (h : first? rows = some m) :
    m ∈ rows ∧ ∀ r ∈ rows, m.place ≤ r.place := by
  induction rows generalizing m with
  | nil => cases h
  | cons r rest ih =>
    simp only [first?] at h
    cases hrest : first? rest with
    | none =>
      have hnil := first?_eq_none hrest
      simp only [hrest, Option.some.injEq] at h
      subst hnil h
      simp
    | some s =>
      obtain ⟨hmem, hle⟩ := ih hrest
      simp only [hrest] at h
      split at h
      · next hprecedes =>
        cases h
        have hlt := (precedes_iff m r).mp hprecedes
        refine ⟨List.mem_cons_of_mem _ hmem, ?_⟩
        simpa using ⟨hlt.le, hle⟩
      · next hnot =>
        cases h
        have hfirst : r.place ≤ s.place :=
          not_lt.mp fun hlt => hnot ((precedes_iff s r).mpr hlt)
        refine ⟨List.mem_cons_self, ?_⟩
        simpa using fun t ht => hfirst.trans (hle t ht)

/-- What is selected from rows is the head of any list that has them in order. -/
theorem first?_eq_head? {rows queue : List SessionRow} (hperm : queue.Perm rows)
    (hsorted : queue.Pairwise fun a b => a.place < b.place) : first? rows = queue.head? := by
  cases hfirst : first? rows with
  | none =>
    have hnil := first?_eq_none hfirst
    subst hnil
    rw [List.perm_nil.mp hperm]
    rfl
  | some m =>
    obtain ⟨hmem, hle⟩ := first?_spec hfirst
    cases queue with
    | nil =>
      rw [List.nil_perm.mp hperm] at hmem
      cases hmem
    | cons head rest =>
      rcases List.mem_cons.mp (hperm.mem_iff.mpr hmem) with rfl | hrest
      · rfl
      · have hlt := (List.pairwise_cons.mp hsorted).1 m hrest
        have hge := hle head (hperm.mem_iff.mp List.mem_cons_self)
        exact absurd hlt (not_lt.mpr hge)

end SessionRow

namespace Store

/-- The sessions that wait to be claimed, in the order in which they are worked off. -/
def queue (st : Store) : List SessionRow :=
  (st.sessions.filter (·.isClaimable)).mergeSort fun a b => !b.precedes a

theorem queue_perm (st : Store) : st.queue.Perm (st.sessions.filter (·.isClaimable)) :=
  List.mergeSort_perm _ _

theorem queue_sorted {st : Store} (hids : (st.sessions.map (·.id)).Nodup) :
    st.queue.Pairwise fun a b => a.place < b.place := by
  have hle : st.queue.Pairwise fun a b => !b.precedes a := by
    refine List.pairwise_mergeSort ?_ ?_ _
    · intro a b c hab hbc
      simp only [Bool.not_eq_true', ← Bool.not_eq_true, SessionRow.precedes_iff, not_lt] at *
      exact hab.trans hbc
    · intro a b
      simp only [Bool.or_eq_true, Bool.not_eq_true', ← Bool.not_eq_true, SessionRow.precedes_iff,
        not_lt]
      exact le_total _ _
  have hne : st.queue.Pairwise fun a b => a.id ≠ b.id := by
    have hnodup : (st.queue.map (·.id)).Nodup :=
      ((st.queue_perm.map _).nodup_iff).mpr (hids.sublist (List.filter_sublist.map _))
    exact List.pairwise_map.mp hnodup
  refine (hle.and hne).imp ?_
  intro a b hlater
  obtain ⟨hab, hid⟩ := hlater
  simp only [Bool.not_eq_true', ← Bool.not_eq_true, SessionRow.precedes_iff, not_lt] at hab
  exact lt_of_le_of_ne hab (SessionRow.place_ne hid)

end Store
end AlertDesk
