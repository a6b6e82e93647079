import TwigKV.ClientSync.ClientNetwork

/-! # The path of a request and its reply

A request of a client travels on the connection to its server, waits there, and comes back as a
response on the connection to the client and in its channel. `PathOk` says that one number is on
that path while the client is in a `get`, the one of the request it has sent, and none otherwise.
Every step keeps this as long as a `get` takes a reply and not a synchronisation request
(`PathInvariant.step`). -/

namespace TwigKV.ClientSync

/-- The client is in a `get`. -/
def ClientPc.isGetting : ClientPc → Bool
  | .getting _ _ => true
  | _ => false

/-- The message is a synchronisation request. -/
def Packet.isSync : Packet → Bool
  | .getResponse _ _ => false
  | .clientSyncRequest _ _ => true

/-- The request a message answers. -/
def replyTo : Packet → Option ℕ
  | .getResponse request _ => some request
  | .clientSyncRequest _ _ => none

/-- The number of an unanswered request if it is one of client `a`. -/
def requestOf (a : ℕ) (entry : ℕ × ℕ × String) : Option ℕ :=
  if entry.1 = a then some entry.2.1 else none

/-- The requests of client `a` to server `s` that have not come back to its channel. -/
def underWay (st : NetworkState) (a s : ℕ) : List ℕ :=
  (st.requests a s).map Prod.fst ++
    ((st.unanswered s).filterMap (requestOf a) ++ (st.responses s a).map Prod.fst)

/-- The requests answered in the channel of client `a`. -/
def replies (st : NetworkState) (a : ℕ) : List ℕ := (st.channel a).filterMap replyTo

/-- One request is on the path of a client in a `get`, none on that of another client. -/
def PathOk (st : NetworkState) (a : ℕ) : ClientPc → Prop
  | .getting request server =>
      (underWay st a server ++ replies st a).Perm [request] ∧
        ∀ s, s ≠ server → underWay st a s = []
  | _ => (∀ s, underWay st a s = []) ∧ replies st a = []

/-- The paths of all clients. -/
def PathInvariant (st : NetworkState) : Prop := ∀ a, PathOk st a (st.pc a)

/-- Before any client has started nothing is on a path. -/
theorem pathInvariant_initial (script : ℕ → List ClientAction) :
    PathInvariant (.initial script) :=
  fun _ => ⟨fun _ => rfl, rfl⟩

/-! ## Reading a path -/

/-- The path of a client that is not in a `get`. -/
theorem pathOk_idle {st : NetworkState} {a : ℕ} {pc : ClientPc} (hpc : pc.isGetting = false) :
    PathOk st a pc ↔ (∀ s, underWay st a s = []) ∧ replies st a = [] := by
  cases pc with
  | getting => cases hpc
  | ready | sending | waiting | panicked => exact Iff.rfl

/-- Moving along a connection or in a queue keeps a path. -/
theorem PathOk.congr {st st' : NetworkState} {a : ℕ} {pc : ClientPc} (h : PathOk st a pc)
    (hway : ∀ s, (underWay st' a s).Perm (underWay st a s))
    (hreplies : (replies st' a).Perm (replies st a)) : PathOk st' a pc := by
  cases pc with
  | getting request server =>
    refine ⟨((hway server).append hreplies).trans h.1, ?_⟩
    intro s hs
    have hnil := h.2 s hs
    exact List.perm_nil.mp (hnil ▸ hway s)
  | ready | sending | waiting | panicked =>
    refine ⟨?_, List.perm_nil.mp (h.2 ▸ hreplies)⟩
    intro s
    exact List.perm_nil.mp (h.1 s ▸ hway s)

/-- A step that starts and ends no `get` and moves messages along their paths. -/
theorem PathInvariant.congr {st st' : NetworkState} (hinv : PathInvariant st)
    (hpc : ∀ a, st'.pc a = st.pc a ∨
      (st.pc a).isGetting = false ∧ (st'.pc a).isGetting = false)
    (hway : ∀ a s, (underWay st' a s).Perm (underWay st a s))
    (hreplies : ∀ a, (replies st' a).Perm (replies st a)) : PathInvariant st' := by
  intro a
  have hpath := (hinv a).congr (hway a) (hreplies a)
  cases hpc a with
  | inl hsame => rw [hsame]; exact hpath
  | inr hidle => exact (pathOk_idle hidle.2).mpr ((pathOk_idle hidle.1).mp hpath)

/-- One client moves between two places outside a `get`. -/
theorem update_idle {pcs : ℕ → ClientPc} {a : ℕ} {pc : ClientPc} (hold : (pcs a).isGetting = false)
    (hnew : pc.isGetting = false) (a' : ℕ) :
    Function.update pcs a pc a' = pcs a' ∨
      (pcs a').isGetting = false ∧ (Function.update pcs a pc a').isGetting = false := by
  by_cases hne : a' = a
  · subst hne
    rw [Function.update_self]
    exact Or.inr ⟨hold, hnew⟩
  · exact Or.inl (Function.update_of_ne hne _ _)

/-! ## Moves along the path -/

/-- A client outside a `get` takes a synchronisation request only. -/
theorem PathInvariant.isSync_head {st : NetworkState} {a : ℕ} {packet : Packet}
    {rest : List Packet} (hinv : PathInvariant st) (hpc : (st.pc a).isGetting = false)
    (hchannel : st.channel a = packet :: rest) : packet.isSync = true := by
  have hnone := ((pathOk_idle hpc).mp (hinv a)).2
  rw [replies, hchannel] at hnone
  cases packet with
  | getResponse request value => cases hnone
  | clientSyncRequest index r => rfl

/-- `sync_with_other_clients` takes a message. -/
theorem PathInvariant.takeSync {st : NetworkState} {a i : ℕ} {indices : List ℕ} {packet : Packet}
    {rest : List Packet} (hinv : PathInvariant st) (hpc : st.pc a = .waiting i indices)
    (hchannel : st.channel a = packet :: rest) :
    PathInvariant (takeSync st a i indices packet rest) := by
  have hidle : (st.pc a).isGetting = false := by rw [hpc]; rfl
  have hsync := hinv.isSync_head hidle hchannel
  refine hinv.congr (update_idle hidle rfl) (fun _ _ => List.Perm.refl _) ?_
  intro a'
  show ((Function.update st.channel a rest a').filterMap replyTo).Perm (replies st a')
  by_cases hne : a' = a
  · subst hne
    rw [Function.update_self, replies, hchannel]
    cases packet with
    | getResponse request value => cases hsync
    | clientSyncRequest index r => exact List.Perm.refl _
  · rw [Function.update_of_ne hne]
    exact List.Perm.refl _

/-- A synchronisation request arrives. -/
theorem PathInvariant.deliverSyncRequest {st : NetworkState} {b a r : ℕ} {rest : List ℕ}
    (hinv : PathInvariant st) : PathInvariant (deliverSyncRequest st b a r rest) := by
  refine hinv.congr (fun _ => Or.inl rfl) (fun _ _ => List.Perm.refl _) ?_
  intro a'
  show ((Function.update st.channel a (st.channel a ++ [.clientSyncRequest b r]) a').filterMap
    replyTo).Perm (replies st a')
  by_cases hne : a' = a
  · subst hne
    rw [Function.update_self, List.filterMap_append]
    show (replies st a' ++ []).Perm (replies st a')
    rw [List.append_nil]
  · rw [Function.update_of_ne hne]
    exact List.Perm.refl _

/-- A request reaches its server. -/
theorem PathInvariant.receiveRequest {st : NetworkState} {s a request : ℕ} {key : String}
    {rest : List (ℕ × String)} (hinv : PathInvariant st)
    (hrequests : st.requests a s = (request, key) :: rest) :
    PathInvariant (receiveRequest st s a request key rest) := by
  refine hinv.congr (fun _ => Or.inl rfl) ?_ (fun _ => List.Perm.refl _)
  intro a' s'
  show ((update₂ st.requests a s rest a' s').map Prod.fst ++
    ((Function.update st.unanswered s (st.unanswered s ++ [(a, request, key)]) s').filterMap
      (requestOf a') ++ (st.responses s' a').map Prod.fst)).Perm (underWay st a' s')
  rw [update₂_apply, underWay]
  by_cases hs : s' = s
  · subst hs
    rw [Function.update_self, List.filterMap_append]
    by_cases ha : a' = a
    · -- the request moves from the connection to the server
      subst ha
      rw [if_pos ⟨rfl, rfl⟩, hrequests]
      simp only [requestOf, List.filterMap_cons, List.filterMap_nil, if_pos, List.map_cons,
        List.cons_append, List.append_assoc, List.nil_append]
      rw [← List.append_assoc, ← List.append_assoc]
      exact List.perm_middle
    · rw [if_neg (fun h : a' = a ∧ s' = s' => ha h.1)]
      simp [requestOf, Ne.symm ha]
  · rw [Function.update_of_ne hs, if_neg (fun h : a' = a ∧ s' = s => hs h.2)]

/-- A server answers a request. -/
theorem PathInvariant.answerRequest {st : NetworkState} {s i a request : ℕ} {key value : String}
    {rest : List (ℕ × ℕ × String)} (hinv : PathInvariant st)
    (hunanswered : dequeueAt (st.unanswered s) i = some ((a, request, key), rest)) :
    PathInvariant (answerRequest st s a request value rest) := by
  refine hinv.congr (fun _ => Or.inl rfl) ?_ (fun _ => List.Perm.refl _)
  intro a' s'
  show ((st.requests a' s').map Prod.fst ++
    ((Function.update st.unanswered s rest s').filterMap (requestOf a') ++
      (update₂ st.responses s a (st.responses s a ++ [(request, value)]) s' a').map
        Prod.fst)).Perm (underWay st a' s')
  rw [update₂_apply, underWay]
  apply List.Perm.append_left
  by_cases hs : s' = s
  · subst hs
    have hperm := (dequeueAt_perm hunanswered).filterMap (requestOf a')
    rw [Function.update_self]
    refine List.Perm.trans ?_ (hperm.symm.append_right _)
    by_cases ha : a' = a
    · -- the request moves from the server to the connection back
      subst ha
      rw [if_pos ⟨rfl, rfl⟩]
      simp only [requestOf, List.filterMap_cons, if_pos, List.map_append, List.map_cons,
        List.map_nil, List.cons_append]
      rw [← List.append_assoc]
      exact List.perm_append_singleton request _
    · rw [if_neg (fun h : s' = s' ∧ a' = a => ha h.2)]
      simp [requestOf, Ne.symm ha]
  · rw [Function.update_of_ne hs, if_neg (fun h : s' = s ∧ a' = a => hs h.1)]

/-- A response arrives in the channel of its client. -/
theorem PathInvariant.deliverGetResponse {st : NetworkState} {s a request : ℕ} {value : String}
    {rest : List (ℕ × String)} (hinv : PathInvariant st)
    (hresponses : st.responses s a = (request, value) :: rest) :
    PathInvariant (deliverGetResponse st s a request value rest) := by
  intro a'
  have hway : ∀ s', ¬(s' = s ∧ a' = a) →
      underWay (ClientSync.deliverGetResponse st s a request value rest) a' s'
        = underWay st a' s' := by
    intro s' hne
    show (st.requests a' s').map Prod.fst ++ ((st.unanswered s').filterMap (requestOf a') ++
      (update₂ st.responses s a rest s' a').map Prod.fst) = underWay st a' s'
    rw [update₂_apply, if_neg hne, underWay]
  show PathOk _ a' (st.pc a')
  by_cases ha : a' = a
  · subst ha
    have hpath := hinv a'
    have hne : underWay st a' s ≠ [] := by
      rw [underWay, hresponses]
      simp
    cases hpc : st.pc a' with
    | getting request' server =>
      rw [hpc] at hpath
      have hserver : s = server := by
        by_contra hs
        exact hne (hpath.2 s hs)
      subst hserver
      refine ⟨?_, ?_⟩
      · refine List.Perm.trans ?_ hpath.1
        show (((st.requests a' s).map Prod.fst ++ ((st.unanswered s).filterMap (requestOf a') ++
          (update₂ st.responses s a' rest s a').map Prod.fst)) ++
          (Function.update st.channel a' (st.channel a' ++ [.getResponse request value])
            a').filterMap replyTo).Perm _
        rw [update₂_self, Function.update_self, underWay, hresponses, replies]
        simp only [List.filterMap_append, List.filterMap_cons, List.filterMap_nil, replyTo,
          List.map_cons, List.append_assoc, List.cons_append]
        apply List.Perm.append_left
        apply List.Perm.append_left
        rw [← List.append_assoc]
        exact List.perm_append_singleton request _
      · intro s' hs'
        rw [hway s' fun h => hs' h.1]
        exact hpath.2 s' hs'
    | ready | sending | waiting | panicked =>
      rw [hpc] at hpath
      exact absurd (hpath.1 s) hne
  · refine (hinv a').congr ?_ ?_
    · intro s'
      rw [hway s' fun h => ha h.2]
    · show ((Function.update st.channel a _ a').filterMap replyTo).Perm (replies st a')
      rw [Function.update_of_ne ha]
      exact List.Perm.refl _

/-- A `get` sends its request. -/
theorem PathInvariant.beginGet {st : NetworkState} {a server : ℕ} {key : String}
    {rest : List ClientAction} (hinv : PathInvariant st) (hpc : st.pc a = .ready) :
    PathInvariant (beginGet st a key server rest) := by
  intro a'
  have hway : ∀ s', ¬(a' = a ∧ s' = server) →
      underWay (ClientSync.beginGet st a key server rest) a' s' = underWay st a' s' := by
    intro s' hne
    show (update₂ st.requests a server _ a' s').map Prod.fst ++ _ = underWay st a' s'
    rw [update₂_apply, if_neg hne, underWay]
    rfl
  show PathOk _ a' (Function.update st.pc a _ a')
  by_cases ha : a' = a
  · subst ha
    have hpath := hinv a'
    rw [hpc] at hpath
    rw [Function.update_self]
    refine ⟨?_, ?_⟩
    · have hnil := hpath.1 server
      rw [underWay, List.append_eq_nil_iff] at hnil
      show (((update₂ st.requests a' server (st.requests a' server ++ [(st.nextRequest, key)])
        a' server).map Prod.fst ++ ((st.unanswered server).filterMap (requestOf a') ++
          (st.responses server a').map Prod.fst)) ++ replies st a').Perm _
      rw [update₂_self, List.map_append, hnil.1, hnil.2, hpath.2]
      exact List.Perm.refl _
    · intro s' hs'
      rw [hway s' fun h => hs' h.2]
      exact hpath.1 s'
  · rw [Function.update_of_ne ha]
    refine (hinv a').congr ?_ (List.Perm.refl _)
    intro s'
    rw [hway s' fun h => ha h.1]

/-- A reply that is taken is the one of the request sent, and nothing else is on the path. -/
theorem PathInvariant.reply_eq {st : NetworkState} {a request server request' : ℕ}
    {value : String} {rest : List Packet} (hinv : PathInvariant st)
    (hpc : st.pc a = .getting request server)
    (hchannel : st.channel a = .getResponse request' value :: rest) :
    request' = request ∧ (∀ s, underWay st a s = []) ∧ rest.filterMap replyTo = [] := by
  have hpath := hinv a
  rw [hpc] at hpath
  obtain ⟨hone, helse⟩ := hpath
  have hreplies : replies st a = request' :: rest.filterMap replyTo := by
    rw [replies, hchannel]
    rfl
  rw [hreplies, List.perm_singleton] at hone
  rw [List.append_eq_singleton_iff] at hone
  cases hone with
  | inl hreply =>
    rw [List.cons.injEq] at hreply
    refine ⟨hreply.2.1, ?_, hreply.2.2⟩
    intro s
    by_cases hs : s = server
    · rw [hs]; exact hreply.1
    · exact helse s hs
  | inr hway => exact absurd hway.2 (List.cons_ne_nil _ _)

/-- A `get` takes its reply. -/
theorem PathInvariant.finishGet {st : NetworkState} {a request server : ℕ} {packet : Packet}
    {rest : List Packet} (hinv : PathInvariant st) (hpc : st.pc a = .getting request server)
    (hchannel : st.channel a = packet :: rest) (hreply : packet.isSync = false) :
    PathInvariant (finishGet st a request packet rest) := by
  intro a'
  show PathOk _ a' (Function.update st.pc a .ready a')
  by_cases ha : a' = a
  · subst ha
    cases packet with
    | getResponse request' value =>
      obtain ⟨-, hway, hrest⟩ := hinv.reply_eq hpc hchannel
      rw [Function.update_self]
      refine ⟨hway, ?_⟩
      show (Function.update st.channel a' rest a').filterMap replyTo = []
      rw [Function.update_self]
      exact hrest
    | clientSyncRequest index r => cases hreply
  · rw [Function.update_of_ne ha]
    refine (hinv a').congr (fun _ => List.Perm.refl _) ?_
    show ((Function.update st.channel a rest a').filterMap replyTo).Perm (replies st a')
    rw [Function.update_of_ne ha]
    exact List.Perm.refl _

/-- Every step keeps the paths, as long as a `get` takes a reply. -/
theorem PathInvariant.step {numClients : ℕ} {st st' : NetworkState} {l : NetworkLabel}
    (hinv : PathInvariant st) (hs : networkStep numClients st l = some st')
    (htaken : ∀ a packet rest, (st.pc a).isGetting = true → st.channel a = packet :: rest →
      l = .receive a → packet.isSync = false) : PathInvariant st' := by
  cases networkMove_of_step hs with
  | beginSync hpc _ | skipSelf hpc _ | sendSyncTo hpc _ _ | beginWait hpc _ | failSync hpc _ _
  | endSync hpc _ _ =>
    exact hinv.congr (update_idle (by rw [hpc]; rfl) rfl) (fun _ _ => List.Perm.refl _)
      (fun _ => List.Perm.refl _)
  | beginGet hpc _ => exact hinv.beginGet hpc
  | @finishGet a request server packet rest hpc hchannel =>
    exact hinv.finishGet hpc hchannel (htaken a packet rest (by rw [hpc]; rfl) hchannel rfl)
  | takeSync hpc hchannel _ => exact hinv.takeSync hpc hchannel
  | deliverSync _ => exact hinv.deliverSyncRequest
  | deliverResponse hresponses => exact hinv.deliverGetResponse hresponses
  | serverReceive hrequests => exact hinv.receiveRequest hrequests
  | answer hunanswered => exact hinv.answerRequest hunanswered

end TwigKV.ClientSync
