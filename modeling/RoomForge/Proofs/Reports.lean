import RoomForge.Log
import RoomForge.Proofs.Fallible

set_option autoImplicit false

/-! # How composed reports end

Walks through lists that say something on their way, and how they end. `result_each_eq_ok_iff` is
how the results about rooms get rid of messages.
-/

namespace RoomForge.Report

variable {ε α β σ : Type}

theorem result_each (step : α → Report ε β) (items : List α) :
    (each step items).result = items.mapM fun item => (step item).result := by
  rw [List.mapM_eq_reverse_foldlM_cons, each, result_bind, result_fold]
  simp only [result_bind]
  rfl

/-- Doing something for every item succeeds if it does for each. -/
theorem result_each_eq_ok_iff {step : α → Report ε β} {items : List α} {results : List β} :
    (each step items).result = .ok results ↔
      List.Forall₂ (fun item result => (step item).result = .ok result) items results := by
  rw [result_each, mapM_eq_ok_iff]

end RoomForge.Report
