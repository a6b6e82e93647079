import TwigKV.ClientSync.ReplyPaths

/-! # Gets and synchronisation requests on one channel

A `get` takes the next message of the channel as its reply. The replies alone would always pair up:
a client has one request under way. A synchronisation request does not wait, though: a machine that
finishes early sends its end-of-run request while others still issue gets, and such a `get` takes it
and returns an empty value. As long as those requests come after the receiver's last reply, gets
return the values of their own responses (`gets_return_their_replies`). -/

namespace TwigKV.ClientSync

/-- The gets of an operation trace: keys and servers. -/
def getActions (ops : List (String × ℕ)) : List ClientAction := ops.map fun op => .get op.1 op.2

/-- `execute_operations`: the first client of a machine synchronises before and after its gets, the
other clients only issue gets. -/
def clientScript (numClients : ℕ) (ops : ℕ → List (String × ℕ)) (a : ℕ) : List ClientAction :=
  if a < numClients then .sync :: (getActions (ops a) ++ [.sync]) else getActions (ops a)

/-- Every `get` has taken the response to its own request and returned the value it carries. -/
def GetsCorrect (st : NetworkState) : Prop :=
  ∀ get ∈ st.finished, ∃ value, get.taken = .getResponse get.request value ∧
    (get.request, value) ∈ st.answers ∧ get.returned = value

/-- What a step has to keep to: once the requests of the first synchronisation have arrived, a
further one arrives at a client only when it has no `get` to start and the reply to the `get` it is
in has arrived; and the values answered are C strings. -/
def SyncsAfterReplies (numClients : ℕ) (st : NetworkState) : NetworkLabel → Prop
  | .deliverSync _ a => numClients - 1 ≤ st.syncsDelivered a →
      (∀ action ∈ st.script a, action = .sync) ∧
        ((st.pc a).isGetting = true → st.channel a ≠ [])
  | .answer _ _ value => NulFree value
  | _ => True

instance decidableSyncsAfterReplies (numClients : ℕ) (st : NetworkState) (l : NetworkLabel) :
    Decidable (SyncsAfterReplies numClients st l) := by
  unfold SyncsAfterReplies
  split <;> infer_instance

/-! ## Stages of a client -/

/-- The synchronisation requests in a channel. -/
def syncsIn (channel : List Packet) : ℕ := channel.countP Packet.isSync

/-- Counting the first message of a channel. -/
theorem syncsIn_cons (packet : Packet) (rest : List Packet) :
    syncsIn (packet :: rest) = syncsIn rest + if packet.isSync then 1 else 0 :=
  List.countP_cons

/-- Counting a message that arrives. -/
theorem syncsIn_concat (channel : List Packet) (packet : Packet) :
    syncsIn (channel ++ [packet]) = syncsIn channel + if packet.isSync then 1 else 0 := by
  rw [syncsIn, syncsIn, List.countP_append, List.countP_singleton]

/-- The next message is not a synchronisation request. -/
def HeadReply : List Packet → Prop
  | [] => True
  | packet :: _ => packet.isSync = false

/-- The stages of a machine's first client, with its script, the number of synchronisation requests
delivered to it and its channel. While it has gets to start, no request beyond those of the first
synchronisation has arrived. -/
inductive FirstStage (numClients : ℕ) : ClientPc → List ClientAction → ℕ → List Packet → Prop
  /-- Before the first synchronisation. -/
  | starting {ops : List (String × ℕ)} {delivered : ℕ} {channel : List Packet}
      (hcount : delivered = syncsIn channel) (hahead : ops ≠ [] → delivered ≤ numClients - 1) :
      FirstStage numClients .ready (.sync :: (getActions ops ++ [.sync])) delivered channel
  /-- Sending the requests of the first synchronisation. -/
  | sending {ops : List (String × ℕ)} {i delivered : ℕ} {channel : List Packet}
      (hcount : delivered = syncsIn channel) (hahead : ops ≠ [] → delivered ≤ numClients - 1) :
      FirstStage numClients (.sending i) (getActions ops ++ [.sync]) delivered channel
  /-- Taking the requests of the first synchronisation. -/
  | waiting {ops : List (String × ℕ)} {i delivered : ℕ} {indices : List ℕ} {channel : List Packet}
      (hi : i ≤ numClients - 1) (hcount : delivered = syncsIn channel + i)
      (hahead : ops ≠ [] → delivered ≤ numClients - 1) :
      FirstStage numClients (.waiting i indices) (getActions ops ++ [.sync]) delivered channel
  /-- Between two operations. -/
  | issuing {ops : List (String × ℕ)} {delivered : ℕ} {channel : List Packet}
      (hcount : delivered = syncsIn channel + (numClients - 1))
      (hahead : ops ≠ [] → delivered ≤ numClients - 1) :
      FirstStage numClients .ready (getActions ops ++ [.sync]) delivered channel
  /-- In a `get`. -/
  | getting {ops : List (String × ℕ)} {request server delivered : ℕ} {channel : List Packet}
      (hcount : delivered = syncsIn channel + (numClients - 1))
      (hahead : ops ≠ [] → delivered ≤ numClients - 1) (hhead : HeadReply channel) :
      FirstStage numClients (.getting request server) (getActions ops ++ [.sync]) delivered channel
  /-- In or after the last synchronisation, or stopped by a panic. -/
  | closing {pc : ClientPc} {script : List ClientAction} {delivered : ℕ} {channel : List Packet}
      (hpc : pc.isGetting = false) (hscript : script = [] ∨ pc = .panicked) :
      FirstStage numClients pc script delivered channel

/-- The further clients of a machine: gets only and no synchronisation request in the channel. -/
structure FurtherStage (pc : ClientPc) (script : List ClientAction) (channel : List Packet) :
    Prop where
  /-- Outside a `get` the client is between two operations. -/
  pc : pc = .ready ∨ pc.isGetting = true
  /-- The gets left. -/
  script : ∃ ops, script = getActions ops
  /-- There are only replies in the channel. -/
  channel : ∀ packet ∈ channel, packet.isSync = false

/-- The stages of all clients. -/
structure Stages (numClients : ℕ) (st : NetworkState) : Prop where
  /-- The machines' first clients. -/
  first : ∀ a < numClients,
    FirstStage numClients (st.pc a) (st.script a) (st.syncsDelivered a) (st.channel a)
  /-- The further clients. -/
  further : ∀ a, numClients ≤ a → FurtherStage (st.pc a) (st.script a) (st.channel a)
  /-- Synchronisation requests go to first clients. -/
  receivers : ∀ b a, st.syncs b a ≠ [] → a < numClients

/-- Every client is in its first stage at the start. -/
theorem stages_initial (numClients : ℕ) (ops : ℕ → List (String × ℕ)) :
    Stages numClients (.initial (clientScript numClients ops)) := by
  constructor
  case first =>
    intro a ha
    show FirstStage numClients .ready (clientScript numClients ops a) 0 []
    rw [clientScript, if_pos ha]
    exact .starting rfl fun _ => Nat.zero_le _
  case further =>
    intro a ha
    refine ⟨Or.inl rfl, ⟨ops a, ?_⟩, fun packet h => absurd h List.not_mem_nil⟩
    show clientScript numClients ops a = getActions (ops a)
    rw [clientScript, if_neg (Nat.not_lt.mpr ha)]
  case receivers => exact fun _ _ h => absurd rfl h

/-! ## Scripts -/

/-- A trace that starts with a synchronisation has no gets left. -/
theorem getActions_eq_sync {ops : List (String × ℕ)} {rest : List ClientAction}
    (h : getActions ops ++ [.sync] = .sync :: rest) : ops = [] ∧ rest = [] := by
  cases ops with
  | nil =>
    rw [getActions, List.map_nil, List.nil_append, List.cons.injEq] at h
    exact ⟨rfl, h.2.symm⟩
  | cons op ops => cases h

/-- A trace that starts with a `get`. -/
theorem getActions_eq_get {ops : List (String × ℕ)} {tail rest : List ClientAction} {key : String}
    {server : ℕ} (htail : tail = [] ∨ tail = [.sync])
    (h : getActions ops ++ tail = .get key server :: rest) :
    ops ≠ [] ∧ ∃ ops', rest = getActions ops' ++ tail ∧ (ops' ≠ [] → ops ≠ []) := by
  cases ops with
  | nil =>
    rw [getActions, List.map_nil, List.nil_append] at h
    cases htail with
    | inl hnil => rw [hnil] at h; cases h
    | inr hsync => rw [hsync] at h; cases h
  | cons op ops =>
    rw [getActions, List.map_cons, List.cons_append, List.cons.injEq] at h
    exact ⟨List.cons_ne_nil _ _, ops, h.2.symm, fun _ => List.cons_ne_nil _ _⟩

/-- A trace of synchronisations has no gets left. -/
theorem getActions_eq_nil {ops : List (String × ℕ)} {tail : List ClientAction}
    (h : ∀ action ∈ getActions ops ++ tail, action = .sync) : ops = [] := by
  cases ops with
  | nil => rfl
  | cons op ops => cases h (.get op.1 op.2) List.mem_cons_self

/-! ## Moves of a first client -/

section FirstStage

variable {numClients delivered : ℕ} {script : List ClientAction} {channel : List Packet}

/-- A synchronisation starts. -/
theorem FirstStage.beginSync {rest : List ClientAction}
    (h : FirstStage numClients .ready (.sync :: rest) delivered channel) :
    FirstStage numClients (.sending 0) rest delivered channel := by
  generalize hscript : ClientAction.sync :: rest = script at h
  generalize hpc : ClientPc.ready = pc at h
  cases h with
  | starting hcount hahead =>
    rw [List.cons.injEq] at hscript
    rw [hscript.2]
    exact .sending hcount hahead
  | issuing hcount hahead =>
    rw [(getActions_eq_sync hscript.symm).2]
    exact .closing rfl (Or.inl rfl)
  | closing _ hover =>
    cases hover with
    | inl hnil => rw [← hscript] at hnil; cases hnil
    | inr hpanicked => rw [← hpc] at hpanicked; cases hpanicked
  | sending | waiting | getting => cases hpc

/-- A `get` starts: nothing is in the channel. -/
theorem FirstStage.beginGet {rest : List ClientAction} {key : String} {request server : ℕ}
    (h : FirstStage numClients .ready (.get key server :: rest) delivered channel)
    (hreplies : channel.filterMap replyTo = []) :
    FirstStage numClients (.getting request server) rest delivered channel := by
  generalize hscript : ClientAction.get key server :: rest = script at h
  generalize hpc : ClientPc.ready = pc at h
  cases h with
  | starting => cases hscript
  | issuing hcount hahead =>
    obtain ⟨hops, ops', hrest, hops'⟩ := getActions_eq_get (Or.inr rfl) hscript.symm
    have hnone : syncsIn channel = 0 := by
      have hle := hahead hops
      omega
    rw [hrest]
    refine .getting hcount (fun h' => hahead (hops' h')) ?_
    cases channel with
    | nil => trivial
    | cons packet tail =>
      -- a message would be a reply, which there is not, or a synchronisation request
      cases packet with
      | getResponse => cases hreplies
      | clientSyncRequest index r =>
        rw [syncsIn_cons] at hnone
        exact absurd hnone (Nat.succ_ne_zero _)
  | closing _ hover =>
    cases hover with
    | inl hnil => rw [← hscript] at hnil; cases hnil
    | inr hpanicked => rw [← hpc] at hpanicked; cases hpanicked
  | sending | waiting | getting => cases hpc

/-- The loop over the machines goes on. -/
theorem FirstStage.sendNext {i : ℕ}
    (h : FirstStage numClients (.sending i) script delivered channel) :
    FirstStage numClients (.sending (i + 1)) script delivered channel := by
  cases h with
  | sending hcount hahead => exact .sending hcount hahead
  | closing _ hover => exact .closing rfl (Or.inl (hover.resolve_right ClientPc.noConfusion))

/-- The loop over the machines ends. -/
theorem FirstStage.beginWait {i : ℕ}
    (h : FirstStage numClients (.sending i) script delivered channel) :
    FirstStage numClients (.waiting 0 []) script delivered channel := by
  cases h with
  | sending hcount hahead => exact .waiting (Nat.zero_le _) hcount hahead
  | closing _ hover => exact .closing rfl (Or.inl (hover.resolve_right ClientPc.noConfusion))

/-- A synchronisation takes a request. -/
theorem FirstStage.takeSync {i : ℕ} {indices indices' : List ℕ} {packet : Packet}
    {rest : List Packet}
    (h : FirstStage numClients (.waiting i indices) script delivered (packet :: rest))
    (hsync : packet.isSync = true) (hi : i < numClients - 1) :
    FirstStage numClients (.waiting (i + 1) indices') script delivered rest := by
  cases h with
  | waiting _ hcount hahead =>
    rw [syncsIn_cons, if_pos hsync] at hcount
    exact .waiting hi (by omega) hahead
  | closing _ hover => exact .closing rfl (Or.inl (hover.resolve_right ClientPc.noConfusion))

/-- A synchronisation returns. -/
theorem FirstStage.endSync {i : ℕ} {indices : List ℕ}
    (h : FirstStage numClients (.waiting i indices) script delivered channel)
    (hi : numClients - 1 ≤ i) : FirstStage numClients .ready script delivered channel := by
  cases h with
  | waiting hle hcount hahead =>
    have heq : i = numClients - 1 := Nat.le_antisymm hle hi
    rw [heq] at hcount
    exact .issuing hcount hahead
  | closing _ hover => exact .closing rfl (Or.inl (hover.resolve_right ClientPc.noConfusion))

/-- The message a `get` finds is a reply. -/
theorem FirstStage.head_reply {pc : ClientPc} {packet : Packet} {rest : List Packet}
    (h : FirstStage numClients pc script delivered (packet :: rest)) (hpc : pc.isGetting = true) :
    packet.isSync = false := by
  cases h with
  | getting _ _ hhead => exact hhead
  | closing hidle _ => rw [hidle] at hpc; cases hpc
  | starting | sending | waiting | issuing => cases hpc

/-- A `get` returns. -/
theorem FirstStage.finishGet {request server : ℕ} {packet : Packet} {rest : List Packet}
    (h : FirstStage numClients (.getting request server) script delivered (packet :: rest)) :
    FirstStage numClients .ready script delivered rest := by
  cases h with
  | getting hcount hahead hhead =>
    have hreply : packet.isSync = false := hhead
    rw [syncsIn_cons, hreply, if_neg Bool.false_ne_true] at hcount
    exact .issuing hcount hahead
  | closing hpc _ => cases hpc

/-- A response arrives. -/
theorem FirstStage.deliverResponse {pc : ClientPc} {request : ℕ} {value : String}
    (h : FirstStage numClients pc script delivered channel) :
    FirstStage numClients pc script delivered (channel ++ [.getResponse request value]) := by
  have hsame : syncsIn (channel ++ [.getResponse request value]) = syncsIn channel :=
    syncsIn_concat _ _
  cases h with
  | starting hcount hahead => exact .starting (hsame ▸ hcount) hahead
  | sending hcount hahead => exact .sending (hsame ▸ hcount) hahead
  | waiting hi hcount hahead => exact .waiting hi (hsame ▸ hcount) hahead
  | issuing hcount hahead => exact .issuing (hsame ▸ hcount) hahead
  | getting hcount hahead hhead =>
    refine .getting (hsame ▸ hcount) hahead ?_
    cases channel with
    | nil => rfl
    | cons packet rest => exact hhead
  | closing hpc hover => exact .closing hpc hover

/-- A synchronisation request arrives that does not come before a reply. -/
theorem FirstStage.deliverSync {pc : ClientPc} {b r : ℕ}
    (h : FirstStage numClients pc script delivered channel)
    (hguard : numClients - 1 ≤ delivered → (∀ action ∈ script, action = .sync) ∧
      (pc.isGetting = true → channel ≠ [])) :
    FirstStage numClients pc script (delivered + 1) (channel ++ [.clientSyncRequest b r]) := by
  have hone : syncsIn (channel ++ [.clientSyncRequest b r]) = syncsIn channel + 1 :=
    syncsIn_concat _ _
  -- while gets are left, the requests of the first synchronisation have not all arrived
  have hroom : ∀ ops : List (String × ℕ),
      ((∀ action ∈ script, action = .sync) → ops = []) → ops ≠ [] →
        delivered + 1 ≤ numClients - 1 := by
    intro ops hnil hops
    by_contra hlt
    exact hops (hnil (hguard (by omega)).1)
  cases h with
  | starting hcount hahead =>
    refine .starting (by rw [hone, hcount]) (hroom _ ?_)
    intro hall
    exact getActions_eq_nil fun action haction => hall action (List.mem_cons_of_mem _ haction)
  | sending hcount hahead =>
    exact .sending (by rw [hone, hcount]) (hroom _ getActions_eq_nil)
  | waiting hi hcount hahead =>
    exact .waiting hi (by omega) (hroom _ getActions_eq_nil)
  | issuing hcount hahead =>
    exact .issuing (by omega) (hroom _ getActions_eq_nil)
  | getting hcount hahead hhead =>
    refine .getting (by omega) (hroom _ getActions_eq_nil) ?_
    cases channel with
    | nil => exact absurd rfl ((hguard (by omega)).2 rfl)
    | cons packet rest => exact hhead
  | closing hpc hover => exact .closing hpc hover

end FirstStage

/-! ## Moves of a further client -/

section FurtherStage

variable {pc : ClientPc} {script : List ClientAction} {channel : List Packet}

/-- No synchronisation starts. -/
theorem FurtherStage.script_ne_sync {rest : List ClientAction}
    (h : FurtherStage pc script channel) :
    script ≠ .sync :: rest := by
  intro hscript
  obtain ⟨ops, hops⟩ := h.script
  rw [hscript] at hops
  cases ops <;> cases hops

/-- None is under way. -/
theorem FurtherStage.not_sync (h : FurtherStage pc script channel) :
    (∀ i, pc ≠ .sending i) ∧ (∀ i indices, pc ≠ .waiting i indices) := by
  refine ⟨?_, ?_⟩
  · intro i hpc
    rw [hpc] at h
    exact h.pc.elim ClientPc.noConfusion Bool.noConfusion
  · intro i indices hpc
    rw [hpc] at h
    exact h.pc.elim ClientPc.noConfusion Bool.noConfusion

/-- A `get` starts. -/
theorem FurtherStage.beginGet {rest : List ClientAction} {key : String} {request server : ℕ}
    (h : FurtherStage pc (.get key server :: rest) channel) :
    FurtherStage (.getting request server) rest channel := by
  obtain ⟨ops, hops⟩ := h.script
  rw [← List.append_nil (getActions ops)] at hops
  obtain ⟨-, ops', hrest, -⟩ := getActions_eq_get (Or.inl rfl) hops.symm
  rw [List.append_nil] at hrest
  exact ⟨Or.inr rfl, ⟨ops', hrest⟩, h.channel⟩

/-- A `get` returns. -/
theorem FurtherStage.finishGet {packet : Packet} {rest : List Packet}
    (h : FurtherStage pc script (packet :: rest)) : FurtherStage .ready script rest :=
  ⟨Or.inl rfl, h.script, fun p hp => h.channel p (List.mem_cons_of_mem _ hp)⟩

/-- A response arrives. -/
theorem FurtherStage.deliverResponse {request : ℕ} {value : String}
    (h : FurtherStage pc script channel) :
    FurtherStage pc script (channel ++ [.getResponse request value]) := by
  refine ⟨h.pc, h.script, fun packet hpacket => ?_⟩
  cases List.mem_append.mp hpacket with
  | inl hold => exact h.channel packet hold
  | inr hnew => rw [List.mem_singleton.mp hnew]; rfl

end FurtherStage

/-! ## Every step keeps the stages -/

/-- A step that moves one client. -/
theorem Stages.update {numClients a : ℕ} {st st' : NetworkState} (h : Stages numClients st)
    (hothers : ∀ a', a' ≠ a → st'.pc a' = st.pc a' ∧ st'.script a' = st.script a' ∧
      st'.syncsDelivered a' = st.syncsDelivered a' ∧ st'.channel a' = st.channel a')
    (hreceivers : ∀ b a', st'.syncs b a' ≠ [] → a' < numClients)
    (hfirst : a < numClients → FirstStage numClients (st.pc a) (st.script a) (st.syncsDelivered a)
        (st.channel a) →
      FirstStage numClients (st'.pc a) (st'.script a) (st'.syncsDelivered a) (st'.channel a))
    (hfurther : numClients ≤ a → FurtherStage (st.pc a) (st.script a) (st.channel a) →
      FurtherStage (st'.pc a) (st'.script a) (st'.channel a)) : Stages numClients st' := by
  constructor
  case first =>
    intro a' ha'
    by_cases hne : a' = a
    · subst hne
      exact hfirst ha' (h.first a' ha')
    · obtain ⟨hpc, hscript, hdelivered, hchannel⟩ := hothers a' hne
      rw [hpc, hscript, hdelivered, hchannel]
      exact h.first a' ha'
  case further =>
    intro a' ha'
    by_cases hne : a' = a
    · subst hne
      exact hfurther ha' (h.further a' ha')
    · obtain ⟨hpc, hscript, -, hchannel⟩ := hothers a' hne
      rw [hpc, hscript, hchannel]
      exact h.further a' ha'
  case receivers => exact hreceivers

/-- A step of `sync_with_other_clients` moves a first client. -/
theorem Stages.goto {numClients a : ℕ} {st : NetworkState} {pc : ClientPc}
    (h : Stages numClients st)
    (hsync : (∃ i, st.pc a = .sending i) ∨ ∃ i indices, st.pc a = .waiting i indices)
    (hfirst : FirstStage numClients (st.pc a) (st.script a) (st.syncsDelivered a) (st.channel a) →
      FirstStage numClients pc (st.script a) (st.syncsDelivered a) (st.channel a)) :
    Stages numClients (st.goto a pc) := by
  refine h.update (a := a) ?_ h.receivers ?_ ?_
  · intro a' hne
    simp [NetworkState.goto, hne]
  · intro _ hstage
    simpa [NetworkState.goto] using hfirst hstage
  · intro _ hfurther
    rcases hsync with ⟨i, hpc⟩ | ⟨i, indices, hpc⟩
    · exact absurd hpc (hfurther.not_sync.1 _)
    · exact absurd hpc (hfurther.not_sync.2 _ _)

/-- The message a `get` takes is a reply. -/
theorem Stages.head_reply {numClients a : ℕ} {st : NetworkState} {packet : Packet}
    {rest : List Packet} (h : Stages numClients st) (hpc : (st.pc a).isGetting = true)
    (hchannel : st.channel a = packet :: rest) : packet.isSync = false := by
  by_cases ha : a < numClients
  · have hfirst := h.first a ha
    rw [hchannel] at hfirst
    exact hfirst.head_reply hpc
  · have hfurther := h.further a (Nat.not_lt.mp ha)
    exact hfurther.channel packet (by rw [hchannel]; exact List.mem_cons_self)

/-- Every step keeps the stages. -/
theorem Stages.step {numClients : ℕ} {st st' : NetworkState} {l : NetworkLabel}
    (h : Stages numClients st) (hpaths : PathInvariant st)
    (hguard : SyncsAfterReplies numClients st l) (hs : networkStep numClients st l = some st') :
    Stages numClients st' := by
  cases networkMove_of_step hs with
  | @beginSync a rest hpc hscript =>
    refine h.update (a := a) ?_ h.receivers ?_ ?_
    · intro a' hne
      simp [beginSync, hne]
    · intro _ hfirst
      rw [hpc, hscript] at hfirst
      simpa [beginSync] using hfirst.beginSync
    · intro _ hfurther
      exact absurd hscript hfurther.script_ne_sync
  | @beginGet a server key rest hpc hscript =>
    have hreplies : (st.channel a).filterMap replyTo = [] :=
      ((pathOk_idle (by rw [hpc]; rfl)).mp (hpaths a)).2
    refine h.update (a := a) ?_ h.receivers ?_ ?_
    · intro a' hne
      simp [beginGet, hne]
    · intro _ hfirst
      rw [hpc, hscript] at hfirst
      simpa [beginGet] using hfirst.beginGet hreplies
    · intro _ hfurther
      rw [hscript] at hfurther
      simpa [beginGet] using hfurther.beginGet
  | @skipSelf a hpc ha =>
    refine h.goto (Or.inl ⟨_, hpc⟩) fun hfirst => ?_
    rw [hpc] at hfirst
    exact hfirst.sendNext
  | @sendSyncTo a i hpc hi hia =>
    refine h.update (a := a) ?_ ?_ ?_ ?_
    · intro a' hne
      simp [sendSyncTo, hne]
    · intro b a' hne
      by_cases hai : a' = i
      · rw [hai]; exact hi
      · refine h.receivers b a' ?_
        rw [sendSyncTo] at hne
        simpa only [update₂_of_ne _ _ (Or.inr hai)] using hne
    · intro _ hfirst
      rw [hpc] at hfirst
      simpa [sendSyncTo] using hfirst.sendNext
    · intro _ hfurther
      exact absurd hpc (hfurther.not_sync.1 _)
  | @beginWait a i hpc hi =>
    refine h.goto (Or.inl ⟨_, hpc⟩) fun hfirst => ?_
    rw [hpc] at hfirst
    exact hfirst.beginWait
  | @finishGet a request server packet rest hpc hchannel =>
    refine h.update (a := a) ?_ h.receivers ?_ ?_
    · intro a' hne
      simp [finishGet, hne]
    · intro _ hfirst
      rw [hpc, hchannel] at hfirst
      simpa [finishGet] using hfirst.finishGet
    · intro _ hfurther
      rw [hchannel] at hfurther
      simpa [finishGet] using hfurther.finishGet
  | @takeSync a i indices packet rest hpc hchannel hi =>
    have hsync := hpaths.isSync_head (by rw [hpc]; rfl) hchannel
    refine h.update (a := a) ?_ h.receivers ?_ ?_
    · intro a' hne
      simp [takeSync, hne]
    · intro _ hfirst
      rw [hpc, hchannel] at hfirst
      simpa [takeSync] using hfirst.takeSync hsync hi
    · intro _ hfurther
      exact absurd hpc (hfurther.not_sync.2 _ _)
  | @failSync a i indices hpc hi hacks =>
    exact h.goto (Or.inr ⟨_, _, hpc⟩) fun _ => .closing rfl (Or.inr rfl)
  | @endSync a i indices hpc hi hacks =>
    refine h.goto (Or.inr ⟨_, _, hpc⟩) fun hfirst => ?_
    rw [hpc] at hfirst
    exact hfirst.endSync hi
  | @deliverSync b a r rest hsyncs =>
    have ha : a < numClients := h.receivers b a (by rw [hsyncs]; exact List.cons_ne_nil _ _)
    refine h.update (a := a) ?_ ?_ ?_ ?_
    · intro a' hne
      simp [deliverSyncRequest, deliver, hne]
    · intro b' a' hne
      by_cases hba : b' = b ∧ a' = a
      · rw [hba.2]; exact ha
      · refine h.receivers b' a' ?_
        rw [deliverSyncRequest] at hne
        simpa only [update₂_apply, if_neg hba] using hne
    · intro _ hfirst
      simpa [deliverSyncRequest, deliver] using hfirst.deliverSync hguard
    · intro hge _
      exact absurd ha (Nat.not_lt.mpr hge)
  | @deliverResponse s a request value rest hresponses =>
    refine h.update (a := a) ?_ h.receivers ?_ ?_
    · intro a' hne
      simp [deliverGetResponse, deliver, hne]
    · intro _ hfirst
      simpa [deliverGetResponse, deliver] using hfirst.deliverResponse
    · intro _ hfurther
      simpa [deliverGetResponse, deliver] using hfurther.deliverResponse
  | serverReceive _ | answer _ => exact ⟨h.first, h.further, h.receivers⟩

/-! ## Values -/

/-- Every response under way or in a channel carries an answer to its request, without a NUL. -/
structure ValuesOk (st : NetworkState) : Prop where
  /-- Responses under way. -/
  responses : ∀ s a request value, (request, value) ∈ st.responses s a →
    (request, value) ∈ st.answers ∧ NulFree value
  /-- Responses in channels. -/
  channels : ∀ a request value, .getResponse request value ∈ st.channel a →
    (request, value) ∈ st.answers ∧ NulFree value

/-- Taking a message leaves responses that were there. -/
theorem ValuesOk.channel_tail {st : NetworkState} {a : ℕ} {packet : Packet} {rest : List Packet}
    (h : ValuesOk st) (hchannel : st.channel a = packet :: rest) {a' request : ℕ} {value : String}
    (hmem : .getResponse request value ∈ Function.update st.channel a rest a') :
    (request, value) ∈ st.answers ∧ NulFree value := by
  apply h.channels a' request value
  by_cases hne : a' = a
  · subst hne
    rw [Function.update_self] at hmem
    rw [hchannel]
    exact List.mem_cons_of_mem _ hmem
  · rwa [Function.update_of_ne hne] at hmem

/-- A message that arrives is new, the others were there. -/
theorem mem_deliver {channels : ℕ → List Packet} {a a' : ℕ} {packet packet' : Packet}
    (hmem : packet' ∈ Function.update channels a (channels a ++ [packet]) a') :
    packet' ∈ channels a' ∨ packet' = packet := by
  by_cases hne : a' = a
  · subst hne
    rw [Function.update_self, List.mem_append, List.mem_singleton] at hmem
    exact hmem
  · rw [Function.update_of_ne hne] at hmem
    exact Or.inl hmem

/-- Every step keeps the values. -/
theorem ValuesOk.step {numClients : ℕ} {st st' : NetworkState} {l : NetworkLabel}
    (h : ValuesOk st) (hguard : SyncsAfterReplies numClients st l)
    (hs : networkStep numClients st l = some st') : ValuesOk st' := by
  cases networkMove_of_step hs with
  | beginSync | beginGet | skipSelf | sendSyncTo | beginWait | failSync | endSync | serverReceive =>
    exact ⟨h.responses, h.channels⟩
  | finishGet _ hchannel => exact ⟨h.responses, fun _ _ _ => h.channel_tail hchannel⟩
  | takeSync _ hchannel _ => exact ⟨h.responses, fun _ _ _ => h.channel_tail hchannel⟩
  | @deliverSync b a r rest hsyncs =>
    refine ⟨h.responses, ?_⟩
    intro a' request value hmem
    cases mem_deliver hmem with
    | inl hold => exact h.channels a' request value hold
    | inr hnew => cases hnew
  | @deliverResponse s a request value rest hresponses =>
    refine ⟨?_, ?_⟩
    · intro s' a' request' value' hmem
      apply h.responses s' a' request' value'
      simp only [deliverGetResponse, update₂_apply] at hmem
      split at hmem
      · next hsa =>
        rw [hsa.1, hsa.2, hresponses]
        exact List.mem_cons_of_mem _ hmem
      · exact hmem
    · intro a' request' value' hmem
      cases mem_deliver hmem with
      | inl hold => exact h.channels a' request' value' hold
      | inr hnew =>
        cases hnew
        exact h.responses s a request value (by rw [hresponses]; exact List.mem_cons_self)
  | @answer s i a request key value rest hunanswered =>
    refine ⟨?_, ?_⟩
    · intro s' a' request' value' hmem
      have hcases : (request', value') ∈ st.responses s' a' ∨
          (request', value') = (request, value) := by
        simp only [answerRequest, update₂_apply] at hmem
        split at hmem
        · next hsa =>
          rw [List.mem_append, List.mem_singleton] at hmem
          rw [hsa.1, hsa.2]
          exact hmem
        · exact Or.inl hmem
      cases hcases with
      | inl hold =>
        have hold' := h.responses s' a' request' value' hold
        exact ⟨List.mem_append_left _ hold'.1, hold'.2⟩
      | inr hnew =>
        rw [Prod.mk.injEq] at hnew
        rw [hnew.1, hnew.2]
        exact ⟨List.mem_append_right _ List.mem_cons_self, hguard⟩
    · intro a' request' value' hmem
      have hold := h.channels a' request' value' hmem
      exact ⟨List.mem_append_left _ hold.1, hold.2⟩

/-! ## Gets -/

/-- The invariant of runs in which synchronisation requests come after the replies. -/
structure GetInvariant (numClients : ℕ) (st : NetworkState) : Prop where
  /-- Requests and replies. -/
  paths : PathInvariant st
  /-- The clients. -/
  stages : Stages numClients st
  /-- The values under way. -/
  values : ValuesOk st
  /-- The gets that have returned. -/
  gets : GetsCorrect st

/-- A `get` that takes its reply returns the value it carries. -/
theorem GetInvariant.finishGet {numClients a request server : ℕ} {st : NetworkState}
    {packet : Packet} {rest : List Packet} (h : GetInvariant numClients st)
    (hpc : st.pc a = .getting request server) (hchannel : st.channel a = packet :: rest) :
    GetsCorrect (finishGet st a request packet rest) := by
  intro get hget
  rw [ClientSync.finishGet, List.mem_append, List.mem_singleton] at hget
  cases hget with
  | inl hold => exact h.gets get hold
  | inr hnew =>
    have hreply := h.stages.head_reply (by rw [hpc]; rfl) hchannel
    cases packet with
    | clientSyncRequest index r => cases hreply
    | getResponse request' value =>
      have heq := (h.paths.reply_eq hpc hchannel).1
      subst heq
      have hvalue := h.values.channels a request' value
        (by rw [hchannel]; exact List.mem_cons_self)
      refine ⟨value, ?_, ?_, ?_⟩
      · rw [hnew]
      · rw [hnew]
        exact hvalue.1
      · rw [hnew]
        exact cStr_of_nulFree hvalue.2

/-- Every step keeps the invariant. -/
theorem GetInvariant.step {numClients : ℕ} {st st' : NetworkState} {l : NetworkLabel}
    (h : GetInvariant numClients st) (hguard : SyncsAfterReplies numClients st l)
    (hs : networkStep numClients st l = some st') : GetInvariant numClients st' := by
  constructor
  case paths =>
    apply h.paths.step hs
    intro a packet rest hpc hchannel _
    exact h.stages.head_reply hpc hchannel
  case stages => exact h.stages.step h.paths hguard hs
  case values => exact h.values.step hguard hs
  case gets =>
    cases networkMove_of_step hs with
    | finishGet hpc hchannel => exact h.finishGet hpc hchannel
    | answer _ =>
      intro get hget
      obtain ⟨value, htaken, hanswer, hreturned⟩ := h.gets get hget
      exact ⟨value, htaken, List.mem_append_left _ hanswer, hreturned⟩
    | _ => exact h.gets

/-- **Gets and their replies.** In every run in which no synchronisation request beyond those of the
first synchronisation arrives before the receiver's last reply, every `get` takes the response to
its own request and returns its value. -/
theorem gets_return_their_replies (numClients : ℕ) (ops : ℕ → List (String × ℕ))
    {st : NetworkState} (h : ReachableUnder (networkStep numClients) (SyncsAfterReplies numClients)
      (.initial (clientScript numClients ops)) st) : GetsCorrect st := by
  have hinv : GetInvariant numClients st := by
    refine h.invariant (I := GetInvariant numClients) ?_ ?_
    · refine ⟨pathInvariant_initial _, stages_initial numClients ops, ?_, ?_⟩
      · exact ⟨fun _ _ _ _ hmem => absurd hmem List.not_mem_nil,
          fun _ _ _ hmem => absurd hmem List.not_mem_nil⟩
      · exact fun _ hmem => absurd hmem List.not_mem_nil
    · intro s l s' _ hinv hguard hs
      exact hinv.step hguard hs
  exact hinv.gets

/-- Two client machines run their first synchronisation. -/
def openingRun : List NetworkLabel :=
  [.start 0, .sendSync 0, .sendSync 0, .sendSync 0, .start 1, .sendSync 1, .sendSync 1,
    .sendSync 1, .deliverSync 1 0, .deliverSync 0 1, .receive 0, .receive 1, .finishSync 0,
    .finishSync 1]

/-- The first machine has one get, the second one has none. -/
def oneGet (a : ℕ) : List (String × ℕ) := if a = 0 then [("1", 2)] else []

/-- A get whose reply arrives first. -/
theorem gets_return_their_replies_one_get :
    ∃ st, runLabels (networkStep 2) (.initial (clientScript 2 oneGet))
        (openingRun ++ [.start 0, .serverReceive 2 0, .answer 2 0 "A", .deliverResponse 2 0,
          .start 1, .sendSync 1, .deliverSync 1 0, .receive 0]) = some st ∧
      st.finished.length = 1 ∧ GetsCorrect st := by
  refine ⟨_, rfl, rfl, gets_return_their_replies 2 oneGet (reachableUnder_of_runLabels
    (openingRun ++ [.start 0, .serverReceive 2 0, .answer 2 0 "A", .deliverResponse 2 0,
      .start 1, .sendSync 1, .deliverSync 1 0, .receive 0]) ?_ rfl)⟩
  decide

/-- A get that takes the end-of-run request of a machine without gets. -/
theorem get_takes_sync : ¬ ∀ st : NetworkState,
    Reachable (networkStep 2) (.initial (clientScript 2 oneGet)) st → GetsCorrect st := by
  intro h
  have hrun : ∃ st : NetworkState,
      runLabels (networkStep 2) (.initial (clientScript 2 oneGet))
          (openingRun ++ [.start 0, .start 1, .sendSync 1, .deliverSync 1 0, .receive 0])
        = some st ∧ st.finished = [⟨0, 0, .clientSyncRequest 1 2, ""⟩] := ⟨_, rfl, rfl⟩
  obtain ⟨st, hst, hfinished⟩ := hrun
  obtain ⟨value, htaken, -⟩ := h st (reachable_of_runLabels _ hst) _
    (by rw [hfinished]; exact List.mem_cons_self)
  cases htaken

end TwigKV.ClientSync
