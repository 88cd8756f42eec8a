import SpotLess.Execute

namespace SpotLess.Executor

open Lib

variable (cfg : Config)

lemma executeIds_copyFromTxn {id : ℕ} (h : cfg.batchSize ≤ id + 1) :
    executeIds (ExecuteMsg.copyFromTxn cfg id) =
      List.range' (id + 1 - cfg.batchSize) cfg.batchSize := by
  obtain ⟨c, hc⟩ := Nat.exists_eq_add_of_le cfg.five_le_batch
  obtain ⟨a, ha⟩ := Nat.exists_eq_add_of_le h
  have hid : id = a + c + 4 := by omega
  have hstart : id + 1 - cfg.batchSize = a := by omega
  have hearly : sub64 id 4 = a + c := by
    rw [sub64_of_le (by omega)]
    omega
  simp only [executeIds, ExecuteMsg.copyFromTxn, sub64_of_le h, hstart, hearly]
  rw [Nat.add_sub_cancel_left, Nat.max_eq_right (by omega : a ≤ a + c),
    Nat.max_eq_right (by omega : a + c ≤ id), hid, Nat.add_sub_cancel_left, hc, List.append_assoc]
  change List.range' a c ++ (List.range' (a + c) 4 ++ List.range' (a + c + 4) 1) = _
  rw [List.range'_append_1, List.range'_append_1]
  congr 1
  omega

lemma copyFromTxn_expected {id k : ℕ} (he : (ExecuteMsg.copyFromTxn cfg id).txnId = k * cfg.batchSize + cfg.batchSize - 2)
    (hr : k * cfg.batchSize + cfg.batchSize - 2 + cfg.batchSize + 4 < 2 ^ 64) :
    id = k * cfg.batchSize + cfg.batchSize - 1 := by
  have hb := cfg.five_le_batch
  simp only [ExecuteMsg.copyFromTxn, sub64] at he
  split_ifs at he <;> omega

lemma executeIds_expected (k : ℕ) :
    executeIds (ExecuteMsg.copyFromTxn cfg (k * cfg.batchSize + cfg.batchSize - 1)) =
      List.range' (k * cfg.batchSize) cfg.batchSize := by
  have hb := cfg.five_le_batch
  rw [executeIds_copyFromTxn cfg (by omega)]
  congr 1
  omega

lemma pop_cases {e t : Executor} {j : ℕ} {table : ℕ → TxnManager} (hs : step cfg e (.pop j table) = some t) :
    ∃ m ∈ e.queue, (∀ m' ∈ t.queue, m' ∈ e.queue) ∧
      ((t.nextIndex = e.nextIndex ∧ t.expectedExecuteCount = e.expectedExecuteCount ∧ t.ran = e.ran) ∨
        (m.txnId = e.expectedExecuteCount ∧ e.expectedExecuteCount + cfg.batchSize + 4 < 2 ^ 64 ∧
          t.nextIndex = e.nextIndex + cfg.batchSize ∧ t.expectedExecuteCount = cfg.batchSize + m.txnId ∧
          t.ran = e.ran ++ if m.valid then (executeIds m).map fun id => (id, table id) else [])) := by
  simp only [step] at hs
  split at hs
  · rename_i m hget
    have hmem : m ∈ e.queue := List.mem_of_getElem? hget
    have hrest : ∀ m' ∈ e.queue.eraseIdx j, m' ∈ e.queue := fun m' hm' => List.mem_of_mem_eraseIdx hm'
    refine ⟨m, hmem, ?_⟩
    simp only [handle] at hs
    split_ifs at hs with hlate hturn hrange
    · obtain rfl := Option.some.inj hs
      exact ⟨hrest, Or.inl ⟨rfl, rfl, rfl⟩⟩
    · obtain rfl := Option.some.inj hs
      refine ⟨fun m' hm' => ?_, Or.inl ⟨rfl, rfl, rfl⟩⟩
      rcases List.mem_append.mp hm' with hm' | hm'
      · exact hrest m' hm'
      · rw [List.mem_singleton.mp hm']
        exact hmem
    · obtain rfl := Option.some.inj hs
      simp only [processExecute]
      split_ifs with hvalid
      · exact ⟨hrest, Or.inr ⟨not_not.mp hturn, hrange, rfl, rfl, rfl⟩⟩
      · exact ⟨hrest, Or.inr ⟨not_not.mp hturn, hrange, rfl, rfl, (List.append_nil _).symm⟩⟩
  · cases hs

end SpotLess.Executor
