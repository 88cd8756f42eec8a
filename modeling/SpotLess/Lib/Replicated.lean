import Mathlib.Data.List.Basic

namespace SpotLess.Lib

variable {α : Type} {ledger ledger' : ℕ → Option α} {log log' l : List α}

def Follows (ledger : ℕ → Option α) (log : List α) : Prop := ∀ k < log.length, log[k]? = ledger k

lemma follows_nil (ledger : ℕ → Option α) : Follows ledger [] := fun k hk => absurd hk (Nat.not_lt_zero k)

lemma Follows.append (h : Follows ledger log) (hl : ∀ k < l.length, l[k]? = ledger (log.length + k)) :
    Follows ledger (log ++ l) := by
  intro k hk
  rcases Nat.lt_or_ge k log.length with hlt | hge
  · rw [List.getElem?_append_left hlt]
    exact h k hlt
  · rw [List.length_append] at hk
    rw [List.getElem?_append_right hge, hl _ (by omega), Nat.add_sub_cancel' hge]

lemma Follows.mono (h : Follows ledger log) (hle : ∀ k x, ledger k = some x → ledger' k = some x) :
    Follows ledger' log := by
  intro k hk
  have hget : log[k]? = some log[k] := List.getElem?_eq_getElem hk
  rw [hget]
  exact (hle k _ ((h k hk).symm.trans hget)).symm

lemma Follows.shorter (h : Follows ledger log) (h' : Follows ledger log') (hle : log.length ≤ log'.length) :
    log <+: log' := by
  have htake : log = log'.take log.length := by
    apply List.ext_getElem?
    intro k
    rcases Nat.lt_or_ge k log.length with hlt | hge
    · rw [List.getElem?_take_of_lt hlt, h k hlt, h' k (by omega)]
    · rw [List.getElem?_eq_none hge, List.getElem?_eq_none (by rw [List.length_take]; omega)]
  rw [htake]
  exact List.take_prefix _ _

lemma Follows.eq_filterMap (h : Follows ledger log) : log = (List.range log.length).filterMap ledger := by
  have hmap : (List.range log.length).map ledger = log.map some := by
    apply List.ext_getElem (by simp)
    intro k hk _
    rw [List.length_map, List.length_range] at hk
    rw [List.getElem_map, List.getElem_map, List.getElem_range, ← h k hk, List.getElem?_eq_getElem hk]
  calc log = (log.map some).filterMap id := by rw [List.filterMap_map, Function.id_comp, List.filterMap_some]
    _ = (List.range log.length).filterMap ledger := by rw [← hmap, List.filterMap_map, Function.id_comp]

end SpotLess.Lib
