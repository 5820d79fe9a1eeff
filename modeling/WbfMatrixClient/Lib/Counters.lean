import Mathlib.Data.List.Nodup
import Mathlib.Data.List.Infix
import Mathlib.Data.Nat.ModEq

/-!
# What a counter that wraps gives out

A counter gives out a number for every draw. Where two draws give one number only if they
are a multiple of some period apart, no number is given out twice within one period.
-/

namespace WbfMatrixClient
namespace Counters

universe u

/-- Whatever is drawn within one period is drawn once. -/
theorem nodup_of_infix {α : Type u} {f : Nat → α} {count : Nat} {window : List α} (period : Nat)
    (hf : ∀ i j, f i = f j → i % period = j % period)
    (hwindow : window <:+: (List.range count).map f) (hlength : window.length ≤ period) :
    window.Nodup := by
  obtain ⟨before, after, heq⟩ := hwindow
  have hdraw : ∀ i (h : i < window.length), window[i] = f (before.length + i) := by
    intro i h
    have hget : (before ++ window ++ after)[before.length + i]? =
        ((List.range count).map f)[before.length + i]? := by rw [heq]
    rw [List.append_assoc, List.getElem?_append_right (Nat.le_add_right _ _),
      Nat.add_sub_cancel_left, List.getElem?_append_left h, List.getElem?_eq_getElem h,
      List.getElem?_map] at hget
    obtain ⟨n, hn, hfn⟩ := Option.map_eq_some_iff.mp hget.symm
    rw [List.getElem?_eq_some_iff] at hn
    obtain ⟨hlt, hval⟩ := hn
    rw [List.getElem_range] at hval
    rw [← hfn, ← hval]
  rw [List.nodup_iff_getElem?_ne_getElem?]
  intro i j hij hj hsame
  rw [List.getElem?_eq_getElem hj, List.getElem?_eq_getElem (hij.trans hj), Option.some.injEq,
    hdraw i (hij.trans hj), hdraw j hj] at hsame
  have hmod : before.length + i ≡ before.length + j [MOD period] := hf _ _ hsame
  have hdvd := (Nat.modEq_iff_dvd' (by omega)).mp hmod
  rw [Nat.add_sub_add_left] at hdvd
  have hle := Nat.le_of_dvd (by omega) hdvd
  omega

end Counters
end WbfMatrixClient
