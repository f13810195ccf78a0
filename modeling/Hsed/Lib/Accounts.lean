import Mathlib.Data.Multiset.Count
import Mathlib.Logic.Function.Basic

/-!
# `Lib.Accounts` — resources with one holder each

Handles (descriptors, blocks) come from a pool of names that are used again. `used` says which names are taken,
`held` lists who holds what. `Accounts used held` is exact: a name is taken just when it is held, and then once.
Taking a free name and giving back a held one keep it, and it leaves no room for a leak (`mem_iff`) or for two
holders of one name (`nodup`).
-/

namespace Accounts

variable {α : Type} [DecidableEq α]

/-- Every name that is taken is held once, and no other name is held. -/
def Exact (used : α → Bool) (held : Multiset α) : Prop := ∀ x, (used x).toNat = held.count x

variable {used : α → Bool} {held : Multiset α} {x : α}

theorem Exact.mem_iff (h : Exact used held) : used x = true ↔ x ∈ held := by
  have hx := h x
  rw [← Multiset.count_pos, ← hx]
  cases used x with
  | false => exact iff_of_false Bool.false_ne_true (Nat.lt_irrefl 0)
  | true => exact iff_of_true rfl Nat.one_pos

theorem Exact.nodup (h : Exact used held) : held.Nodup := by
  rw [Multiset.nodup_iff_count_le_one]
  intro x
  rw [← h x]
  exact Bool.toNat_le (used x)

/-- A free name is taken. -/
theorem Exact.take (h : Exact used held) (hfree : used x = false) :
    Exact (Function.update used x true) (x ::ₘ held) := by
  intro y
  have hy := h y
  by_cases hyx : y = x
  · subst hyx
    rw [hfree] at hy
    rw [Function.update_self, Multiset.count_cons_self, ← hy]
    rfl
  · rw [Function.update_of_ne hyx, Multiset.count_cons_of_ne hyx]
    exact hy

/-- A held name is given back. -/
theorem Exact.give (h : Exact used (x ::ₘ held)) : Exact (Function.update used x false) held := by
  intro y
  have hy := h y
  by_cases hyx : y = x
  · subst hyx
    have hle := Bool.toNat_le (used y)
    rw [Multiset.count_cons_self] at hy
    rw [Function.update_self, show held.count y = 0 by omega]
    rfl
  · rw [Multiset.count_cons_of_ne hyx] at hy
    rw [Function.update_of_ne hyx]
    exact hy

end Accounts
