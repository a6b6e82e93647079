import TwigKV.ClientSync.ConfinedTraffic

/-! # No message is missing

A client takes one message for every get and one for every other machine in each synchronisation.
The messages meant for it are the replies to its requests and the requests of the other machines.
What it has taken of these, with what is still to come, adds up to what its calls ask for
(`AccountOk`), even where a call takes a message meant for another one. So a call that waits for a
message has one on its way, or a machine that has not yet sent it. -/

namespace TwigKV.ClientSync

/-- The replies that are still to be taken by client `a`: requests under way and replies in its
channel. -/
def pendingReplies (numServers : ℕ) (st : NetworkState) (a : ℕ) : ℕ :=
  tableWeight List.length numServers (underWay st a) + (replies st a).length

/-- The messages that the synchronisations of a client have taken, from where it stands and the
round it is in. -/
def takenBySyncs (numClients round : ℕ) : ClientPc → ℕ
  | .sending _ => (round - 1) * (numClients - 1)
  | .waiting i _ => (round - 1) * (numClients - 1) + i
  | .ready | .getting _ _ | .panicked => round * (numClients - 1)

/-- Whether a client is in a get, as a number. -/
def getsStarted (pc : ClientPc) : ℕ := if pc.isGetting then 1 else 0

/-- A synchronisation takes one message for every other machine. -/
def WaitBounded (numClients : ℕ) : ClientPc → Prop
  | .waiting i _ => i ≤ numClients - 1
  | _ => True

/-- What a client's calls have taken and what they still wait for. -/
def AccountOk (p : Parties) (st : NetworkState) (a : ℕ) : Prop :=
  st.pc a ≠ .panicked → WaitBounded p.numClients (st.pc a) ∧
    pendingReplies p.numServers st a + takenBySyncs p.numClients (st.round a) (st.pc a)
      = tableWeight id p.numClients (st.syncsTaken a) + getsStarted (st.pc a)

variable {p : Parties} {st st' : NetworkState}

/-- The messages of one client are counted in the same way. -/
theorem pendingReplies_congr {S a : ℕ}
    (hway : ∀ s, (underWay st' a s).length = (underWay st a s).length)
    (hchannel : st'.channel a = st.channel a) : pendingReplies S st' a = pendingReplies S st a := by
  unfold pendingReplies replies
  rw [hchannel, tableWeight_congr fun s _ => hway s]

/-- A request that reaches its server is still under way. -/
theorem length_underWay_receiveRequest {s a request : ℕ} {key : String} {rest : List (ℕ × String)}
    (hrequests : st.requests a s = (request, key) :: rest) (a' s' : ℕ) :
    (underWay (receiveRequest st s a request key rest) a' s').length
      = (underWay st a' s').length := by
  simp only [underWay, receiveRequest, update₂_apply, List.length_append, List.length_map]
  by_cases hs : s' = s
  · subst hs
    rw [Function.update_self, List.filterMap_append, List.length_append]
    by_cases ha : a' = a
    · subst ha
      simp [hrequests, requestOf]
      omega
    · simp [ha, requestOf, Ne.symm ha]
  · rw [Function.update_of_ne hs, if_neg fun h => hs h.2]

/-- A request that is answered is still under way. -/
theorem length_underWay_answerRequest {s i a request : ℕ} {key value : String}
    {rest : List (ℕ × ℕ × String)}
    (hunanswered : dequeueAt (st.unanswered s) i = some ((a, request, key), rest)) (a' s' : ℕ) :
    (underWay (answerRequest st s a request value rest) a' s').length
      = (underWay st a' s').length := by
  simp only [underWay, answerRequest, update₂_apply, List.length_append, List.length_map]
  by_cases hs : s' = s
  · subst hs
    have hperm := ((dequeueAt_perm hunanswered).filterMap (requestOf a')).length_eq
    rw [Function.update_self, hperm]
    by_cases ha : a' = a
    · subst ha
      simp [requestOf]
      omega
    · simp [ha, requestOf, Ne.symm ha]
  · rw [Function.update_of_ne hs, if_neg fun h => hs h.1]

/-- A response that arrives moves from the connection to the channel. -/
theorem pendingReplies_deliver {S s a request : ℕ} {value : String} {rest : List (ℕ × String)}
    (hresponses : st.responses s a = (request, value) :: rest) (hs : s < S) (a' : ℕ) :
    pendingReplies S (deliverGetResponse st s a request value rest) a'
      = pendingReplies S st a' := by
  by_cases ha : a' = a
  · subst ha
    have hrow : underWay (deliverGetResponse st s a' request value rest) a'
        = Function.update (underWay st a') s ((st.requests a' s).map Prod.fst ++
            ((st.unanswered s).filterMap (requestOf a') ++ rest.map Prod.fst)) := by
      funext s'
      by_cases hs' : s' = s
      · subst hs'
        rw [Function.update_self]
        simp only [underWay, deliverGetResponse, deliver, update₂_self]
      · rw [Function.update_of_ne hs']
        simp [underWay, deliverGetResponse, deliver, update₂_apply, hs']
    have hupdate := tableWeight_update List.length (underWay st a') hs
      ((st.requests a' s).map Prod.fst ++
        ((st.unanswered s).filterMap (requestOf a') ++ rest.map Prod.fst))
    have hlength : (underWay st a' s).length = ((st.requests a' s).map Prod.fst ++
        ((st.unanswered s).filterMap (requestOf a') ++ rest.map Prod.fst)).length + 1 := by
      simp [underWay, hresponses]
      omega
    have hreplies : (replies (deliverGetResponse st s a' request value rest) a').length
        = (replies st a').length + 1 := by
      simp [replies, deliverGetResponse, deliver, replyTo]
    unfold pendingReplies
    rw [hrow, hreplies]
    omega
  · refine pendingReplies_congr ?_ ?_
    · intro s'
      simp [underWay, deliverGetResponse, deliver, update₂_apply, ha]
    · exact Function.update_of_ne ha _ _

/-- A get that starts puts one request under way. -/
theorem pendingReplies_beginGet {S a server : ℕ} {key : String} {rest : List ClientAction}
    (hserver : server < S) :
    pendingReplies S (beginGet st a key server rest) a = pendingReplies S st a + 1 := by
  have hrow : underWay (beginGet st a key server rest) a
      = Function.update (underWay st a) server
          ((st.requests a server ++ [(st.nextRequest, key)]).map Prod.fst ++
            ((st.unanswered server).filterMap (requestOf a) ++
              (st.responses server a).map Prod.fst)) := by
    funext s'
    by_cases hs' : s' = server
    · subst hs'
      rw [Function.update_self]
      simp only [underWay, beginGet, update₂_self]
    · rw [Function.update_of_ne hs']
      simp [underWay, beginGet, update₂_apply, hs']
  have hupdate := tableWeight_update List.length (underWay st a) hserver
    ((st.requests a server ++ [(st.nextRequest, key)]).map Prod.fst ++
      ((st.unanswered server).filterMap (requestOf a) ++ (st.responses server a).map Prod.fst))
  have hlength : ((st.requests a server ++ [(st.nextRequest, key)]).map Prod.fst ++
      ((st.unanswered server).filterMap (requestOf a) ++
        (st.responses server a).map Prod.fst)).length = (underWay st a server).length + 1 := by
    simp [underWay]
    omega
  have hreplies : replies (beginGet st a key server rest) a = replies st a := rfl
  unfold pendingReplies
  rw [hrow, hreplies]
  omega

/-- A message that is taken is a reply that was pending or a request of another machine. -/
theorem tableWeight_countTaken {N : ℕ} (taken : ℕ → ℕ) (packet : Packet)
    (hindex : ∀ index r, packet = .clientSyncRequest index r → index < N) :
    tableWeight id N (countTaken taken packet) + (replyTo packet).toList.length
      = tableWeight id N taken + 1 := by
  cases packet with
  | getResponse => rfl
  | clientSyncRequest index r =>
    have hupdate := tableWeight_update id taken (hindex index r rfl) (taken index + 1)
    simp only [id] at hupdate
    show tableWeight id N (Function.update taken index (taken index + 1)) + 0 = _
    omega

/-! ## Steps -/

/-- A client that has not moved, with the same messages on their way. -/
theorem AccountOk.congr {a : ℕ} (h : AccountOk p st a) (hpc : st'.pc a = st.pc a)
    (hround : st'.round a = st.round a) (htaken : st'.syncsTaken a = st.syncsTaken a)
    (hpending : pendingReplies p.numServers st' a = pendingReplies p.numServers st a) :
    AccountOk p st' a := by
  unfold AccountOk
  rw [hpc, hround, htaken, hpending]
  exact h

/-- A client that moves without taking or sending a request. -/
theorem AccountOk.goto {a : ℕ} {pc : ClientPc} (h : AccountOk p st a) (hpc : st'.pc a = pc)
    (hold : st.pc a ≠ .panicked) (htaken : st'.syncsTaken a = st.syncsTaken a)
    (hpending : pendingReplies p.numServers st' a = pendingReplies p.numServers st a)
    (hbound : WaitBounded p.numClients pc)
    (hsyncs : takenBySyncs p.numClients (st'.round a) pc
      = takenBySyncs p.numClients (st.round a) (st.pc a))
    (hgets : getsStarted pc = getsStarted (st.pc a)) : AccountOk p st' a := by
  intro _
  rw [hpc, htaken, hpending, hsyncs, hgets]
  exact ⟨hbound, (h hold).2⟩

/-- A client takes a message: one more for its synchronisation, or the one its get waits for. -/
theorem AccountOk.take {a : ℕ} {pc : ClientPc} {packet : Packet} {rest : List Packet}
    (h : AccountOk p st a) (hold : st.pc a ≠ .panicked) (hchannel : st.channel a = packet :: rest)
    (hindex : ∀ index r, packet = .clientSyncRequest index r → index < p.numClients)
    (hpc : st'.pc a = pc) (hround : st'.round a = st.round a) (hchannel' : st'.channel a = rest)
    (hway : underWay st' a = underWay st a)
    (htaken : st'.syncsTaken a = countTaken (st.syncsTaken a) packet)
    (hbound : WaitBounded p.numClients pc)
    (hmessage : takenBySyncs p.numClients (st.round a) pc + getsStarted (st.pc a)
      = takenBySyncs p.numClients (st.round a) (st.pc a) + getsStarted pc + 1) :
    AccountOk p st' a := by
  intro _
  have heq := (h hold).2
  have hcount := tableWeight_countTaken (st.syncsTaken a) packet hindex
  have hreplies : (replies st a).length
      = (replies st' a).length + (replyTo packet).toList.length := by
    unfold replies
    rw [hchannel, hchannel', List.filterMap_cons]
    cases replyTo packet <;> rfl
  rw [hpc, hround, htaken]
  refine ⟨hbound, ?_⟩
  unfold pendingReplies at heq ⊢
  rw [hway]
  omega

/-- A client that moves inside a synchronisation. -/
theorem accountOk_goto {a : ℕ} {pc : ClientPc} (h : ∀ b, AccountOk p st b)
    (hold : st.pc a ≠ .panicked) (hbound : WaitBounded p.numClients pc)
    (hsyncs : takenBySyncs p.numClients (st.round a) pc
      = takenBySyncs p.numClients (st.round a) (st.pc a))
    (hgets : getsStarted pc = getsStarted (st.pc a)) (b : ℕ) : AccountOk p (st.goto a pc) b := by
  by_cases hba : b = a
  · subst hba
    exact (h b).goto (Function.update_self _ _ _) hold rfl rfl hbound hsyncs hgets
  · exact (h b).congr (Function.update_of_ne hba _ _) rfl rfl rfl

/-- A synchronisation starts. -/
theorem accountOk_beginSync {a : ℕ} {rest : List ClientAction} (h : ∀ b, AccountOk p st b)
    (hpc : st.pc a = .ready) (b : ℕ) : AccountOk p (beginSync st a rest) b := by
  by_cases hba : b = a
  · subst hba
    refine (h b).goto (Function.update_self _ _ _) (by rw [hpc]; exact ClientPc.noConfusion) rfl rfl
      trivial ?_ ?_
    · show takenBySyncs _ (Function.update st.round b (st.round b + 1) b) _ = _
      rw [Function.update_self, hpc, takenBySyncs, takenBySyncs, Nat.add_sub_cancel]
    · rw [hpc]
      rfl
  · exact (h b).congr (Function.update_of_ne hba _ _) (Function.update_of_ne hba _ _) rfl rfl

/-- A get starts. -/
theorem accountOk_beginGet {a server : ℕ} {key : String} {rest : List ClientAction}
    (h : ∀ b, AccountOk p st b) (hpc : st.pc a = .ready) (hserver : server < p.numServers) (b : ℕ) :
    AccountOk p (beginGet st a key server rest) b := by
  by_cases hba : b = a
  · subst hba
    intro _
    have heq := (h b (by rw [hpc]; exact ClientPc.noConfusion)).2
    rw [pendingReplies_beginGet hserver]
    simp only [hpc, takenBySyncs, getsStarted, ClientPc.isGetting, beginGet,
      Function.update_self] at heq ⊢
    refine ⟨trivial, ?_⟩
    simp only [if_true, Bool.false_eq_true, if_false] at heq ⊢
    omega
  · refine (h b).congr (Function.update_of_ne hba _ _) rfl rfl (pendingReplies_congr ?_ rfl)
    intro s
    simp [underWay, beginGet, update₂_apply, hba]

/-- A client takes a message. -/
theorem accountOk_take {a : ℕ} {pc : ClientPc} {packet : Packet} {rest : List Packet}
    (h : ∀ b, AccountOk p st b) (hinv : SyncInvariant p.numClients st)
    (hold : st.pc a ≠ .panicked) (hchannel : st.channel a = packet :: rest)
    (hpc : st'.pc = Function.update st.pc a pc) (hround : st'.round = st.round)
    (hchannel' : st'.channel = Function.update st.channel a rest)
    (hway : ∀ b, underWay st' b = underWay st b)
    (htaken : st'.syncsTaken
      = Function.update st.syncsTaken a (countTaken (st.syncsTaken a) packet))
    (hbound : WaitBounded p.numClients pc)
    (hmessage : takenBySyncs p.numClients (st.round a) pc + getsStarted (st.pc a)
      = takenBySyncs p.numClients (st.round a) (st.pc a) + getsStarted pc + 1) (b : ℕ) :
    AccountOk p st' b := by
  by_cases hba : b = a
  · subst hba
    refine (h b).take hold hchannel ?_ (by rw [hpc, Function.update_self]) (congrFun hround b)
      (by rw [hchannel', Function.update_self]) (hway b) (by rw [htaken, Function.update_self])
      hbound hmessage
    intro index r hpacket
    exact (hinv.channels b index r (by rw [hchannel, hpacket]; exact List.mem_cons_self)).1
  · refine (h b).congr (by rw [hpc, Function.update_of_ne hba]) (congrFun hround b)
      (by rw [htaken, Function.update_of_ne hba]) (pendingReplies_congr ?_ ?_)
    · intro s
      rw [hway]
    · rw [hchannel', Function.update_of_ne hba]

/-- Every step keeps the accounts. -/
theorem accountOk_step {l : NetworkLabel} (h : ∀ a, AccountOk p st a) (hconf : Confined p st)
    (hinv : SyncInvariant p.numClients st) (hstart : ∀ a, l = .start a → a < p.total)
    (hs : networkStep p.numClients st l = some st') : ∀ a, AccountOk p st' a := by
  cases networkMove_of_step hs with
  | beginSync hpc _ => exact accountOk_beginSync h hpc
  | @beginGet a server key rest hpc hscript =>
    refine accountOk_beginGet h hpc (hconf.scripts a (hstart a rfl) key server ?_)
    rw [hscript]
    exact List.mem_cons_self
  | skipSelf hpc =>
    refine accountOk_goto h (by rw [hpc]; exact ClientPc.noConfusion) trivial ?_ ?_
    · rw [hpc]; rfl
    · rw [hpc]; rfl
  | @sendSyncTo a i hpc hi hia =>
    intro b
    by_cases hba : b = a
    · subst hba
      refine (h b).goto (Function.update_self _ _ _) (by rw [hpc]; exact ClientPc.noConfusion) rfl
        rfl trivial ?_ ?_
      · rw [hpc]; rfl
      · rw [hpc]; rfl
    · exact (h b).congr (Function.update_of_ne hba _ _) rfl rfl rfl
  | beginWait hpc =>
    refine accountOk_goto h (by rw [hpc]; exact ClientPc.noConfusion) (Nat.zero_le _) ?_ ?_
    · rw [hpc]; rfl
    · rw [hpc]; rfl
  | @finishGet a request server packet rest hpc hchannel =>
    refine accountOk_take h hinv (by rw [hpc]; exact ClientPc.noConfusion) hchannel rfl rfl rfl
      (fun _ => rfl) rfl trivial ?_
    rw [hpc]
    simp [takenBySyncs, getsStarted, ClientPc.isGetting]
  | @takeSync a i indices packet rest hpc hchannel hi =>
    refine accountOk_take h hinv (by rw [hpc]; exact ClientPc.noConfusion) hchannel rfl rfl rfl
      (fun _ => rfl) rfl hi ?_
    rw [hpc]
    simp [takenBySyncs, getsStarted, ClientPc.isGetting, Nat.add_assoc]
  | @failSync a i indices hpc hi hacks =>
    intro b
    by_cases hba : b = a
    · subst hba
      intro hne
      exact absurd (Function.update_self _ _ _) hne
    · exact (h b).congr (Function.update_of_ne hba _ _) rfl rfl rfl
  | @endSync a i indices hpc hi hacks =>
    have hne : st.pc a ≠ .panicked := by rw [hpc]; exact ClientPc.noConfusion
    have hbound := (h a hne).1
    have hround : 1 ≤ st.round a := by
      have hheard := hinv.heard a (hinv.client_lt hpc ClientPc.noConfusion rfl)
      rw [hpc] at hheard
      exact hheard.1.1
    rw [hpc] at hbound
    have heq : i = p.numClients - 1 := Nat.le_antisymm hbound hi
    refine accountOk_goto h hne trivial ?_ ?_
    · rw [hpc, takenBySyncs, takenBySyncs, heq, ← Nat.succ_mul, Nat.succ_eq_add_one,
        Nat.sub_add_cancel hround]
    · rw [hpc]
      rfl
  | @deliverSync c a r rest hsyncs =>
    intro b
    refine (h b).congr rfl rfl rfl ?_
    have hreplies : replies (deliverSyncRequest st c a r rest) b = replies st b := by
      by_cases hba : b = a
      · subst hba
        simp [replies, deliverSyncRequest, deliver, replyTo]
      · simp [replies, deliverSyncRequest, deliver, Function.update_of_ne hba]
    unfold pendingReplies
    rw [hreplies]
    rfl
  | @deliverResponse s a request value rest hresponses =>
    intro b
    have hserver := (hconf.responses s a (by rw [hresponses]; exact List.cons_ne_nil _ _)).1
    exact (h b).congr rfl rfl rfl (pendingReplies_deliver hresponses hserver b)
  | serverReceive hrequests =>
    intro b
    exact (h b).congr rfl rfl rfl
      (pendingReplies_congr (length_underWay_receiveRequest hrequests b) rfl)
  | answer hunanswered =>
    intro b
    exact (h b).congr rfl rfl rfl
      (pendingReplies_congr (length_underWay_answerRequest hunanswered b) rfl)

end TwigKV.ClientSync
