import Mathlib.Data.List.Chain

/-!
# Reported changes

A value may be reported to somebody else each time it changes.  `Changes a xs b` says that the
reports `xs` were made while it went from `a` to `b`.  Reports of two periods are put together by
`Changes.append`.  None of them repeats the one before (`Changes.isChain`), and whoever keeps the
last one knows the value (`Changes.foldl_eq`).
-/

namespace Dispatch

variable {α : Type} {a b c : α} {xs ys : List α}

/-- The value was `a`, took the values `xs` one after the other, each of them new, and is
`b` now. -/
inductive Changes : α → List α → α → Prop
  | none (a : α) : Changes a [] a
  | next {a b c : α} {xs : List α} (new : a ≠ b) (rest : Changes b xs c) : Changes a (b :: xs) c

namespace Changes

theorem once (new : a ≠ b) : Changes a [b] b := .next new (.none b)

theorem append (h : Changes a xs b) (k : Changes b ys c) : Changes a (xs ++ ys) c := by
  induction h with
  | none => exact k
  | next new _ ih => exact .next new (ih k)

/-- No report repeats the one before, nor the first one the value at the start. -/
theorem isChain (h : Changes a xs b) : (a :: xs).IsChain (· ≠ ·) := by
  induction h with
  | none a => exact List.isChain_singleton a
  | next new _ ih => exact List.isChain_cons_cons.2 ⟨new, ih⟩

/-- The last report is the value. -/
theorem foldl_eq (h : Changes a xs b) : xs.foldl (fun _ x => x) a = b := by
  induction h with
  | none => rfl
  | next _ _ ih => exact ih

end Changes

end Dispatch
