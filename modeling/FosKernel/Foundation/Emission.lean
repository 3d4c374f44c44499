import Mathlib.Data.List.Basic

/-! # Output through a callback

A producer hands items one after the other to a callback that changes some data. With the
callback that records the items it leaves the list of them.
-/

namespace FosKernel

/-- Hand over the items one after the other. -/
def emit (put : ε → σ → σ) (items : List ε) (data : σ) : σ :=
  items.foldl (fun data item => put item data) data

/-- The callback that records its items. -/
def record (item : ε) (recorded : List ε) : List ε := recorded ++ [item]

section Emission

variable (put : ε → σ → σ)

@[simp] theorem emit_nil (data : σ) : emit put [] data = data := rfl

@[simp] theorem emit_cons (item : ε) (items : List ε) (data : σ) :
    emit put (item :: items) data = emit put items (put item data) := rfl

theorem emit_append (first second : List ε) (data : σ) :
    emit put (first ++ second) data = emit put second (emit put first data) :=
  List.foldl_append

theorem emit_singleton (item : ε) (data : σ) : emit put [item] data = put item data := rfl

@[simp] theorem emit_record (items recorded : List ε) :
    emit record items recorded = recorded ++ items := by
  induction items generalizing recorded with
  | nil => simp
  | cons item items induction => simp [induction, record]

end Emission

end FosKernel
