import Armore.Proxy.SendQueue

/-!
# The order of the messages for a client

Each thread sends what it took in the order in which it was queued, and it takes later what was queued
later. Two threads that hold messages for the same client at the same time may send them either way round.
-/

namespace Armore.Proxy.SendQueue

/-- The working list of a thread. -/
def Server.held (s : Server) (thread : Nat) : List Copy :=
  (s.pool[thread]?.map PollThread.workingBuffers).getD []

/-- In the order in which they were queued. -/
def InOrder (messages : List Copy) : Prop := messages.Pairwise fun copy copy' => copy.serial < copy'.serial

/-- What a thread has sent. -/
def sentBy (thread : Nat) (acts : List Act) : List Copy :=
  ((sent acts).filter fun send => send.1 = thread).map Prod.snd

/-- The copies for a client. -/
def toClient (client : UUID) (messages : List Copy) : List Copy :=
  messages.filter fun copy => copy.connectionID = client

/-- What one caller queued for a client, as far as it has been sent. -/
def sentFor (caller : Nat) (client : UUID) (acts : List Act) : List Copy :=
  (toClient client ((sent acts).map Prod.snd)).filter fun copy => copy.caller = caller

/-- No batch is taken while a message for the client is in a working list. -/
def TakesAlone (client : UUID) (s : Server) (act : Act) : Prop :=
  ∀ thread, act = .takeBuffers thread → toClient client s.pending = []

/-! ### One step -/

theorem held_start (threads thread : Nat) : (Server.start threads).held thread = [] := by
  unfold Server.held Server.start
  rw [List.getElem?_replicate]
  split <;> rfl

theorem held_of_getElem? {s : Server} {thread : Nat} {place : PollThread}
    (hthread : s.pool[thread]? = some place) : s.held thread = place.workingBuffers := by
  rw [Server.held, hthread]
  rfl

theorem held_advance {s : Server} {thread : Nat} {old : PollThread}
    (hthread : s.pool[thread]? = some old) (place : PollThread) :
    (s.advance thread place).held = Function.update s.held thread place.workingBuffers := by
  have hlt := (List.getElem?_eq_some_iff.mp hthread).1
  funext other
  show (((s.pool.set thread place)[other]?).map _).getD [] = _
  rcases eq_or_ne other thread with rfl | hne
  · rw [List.getElem?_set_self hlt, Function.update_self]
    rfl
  · rw [List.getElem?_set_ne hne.symm, Function.update_of_ne hne]
    rfl

theorem held_advance_same {s : Server} {thread : Nat} {old place : PollThread}
    (hthread : s.pool[thread]? = some old) (hsame : place.workingBuffers = old.workingBuffers) :
    (s.advance thread place).held = s.held := by
  rw [held_advance hthread, hsame, ← held_of_getElem? hthread, Function.update_eq_self]

@[simp] theorem held_updateClientActivityTime (s : Server) (connectionID : UUID) :
    (s.updateClientActivityTime connectionID).held = s.held := by
  funext thread
  unfold Server.held
  rcases pool_updateClientActivityTime s connectionID with hpool | hpool
  · rw [hpool]
  · rw [hpool]
    rcases Nat.lt_trichotomy thread s.pool.length with hlt | heq | hgt
    · rw [List.getElem?_append_left hlt]
    · rw [heq, List.getElem?_concat_length, List.getElem?_eq_none le_rfl]
      rfl
    · rw [List.getElem?_eq_none hgt.le, List.getElem?_eq_none]
      rw [List.length_append, List.length_singleton]
      exact hgt

/-- A step queues a copy, or moves none, or makes all that waits the working list of one thread, or sends
the first copy of a working list. -/
theorem step_cases {s s' : Server} {act : Act} (hstep : Step s act s') :
    (∃ caller connectionID buffer, act = .sendBuffer caller connectionID buffer
        ∧ s'.sendBuffers.waiting = s.sendBuffers.waiting ++ [⟨s.copied, caller, connectionID, buffer⟩]
        ∧ s'.held = s.held)
      ∨ (requested [act] = [] ∧ sent [act] = []
        ∧ s'.sendBuffers.waiting = s.sendBuffers.waiting ∧ s'.held = s.held)
      ∨ (∃ thread, act = .takeBuffers thread ∧ s.held thread = [] ∧ s'.sendBuffers.waiting = []
        ∧ s'.held = Function.update s.held thread s.sendBuffers.waiting)
      ∨ (∃ thread copy workingBuffers, act = .send thread copy
        ∧ s.held thread = copy :: workingBuffers ∧ s'.sendBuffers.waiting = s.sendBuffers.waiting
        ∧ s'.held = Function.update s.held thread workingBuffers) := by
  cases hstep with
  | sendBuffer caller buffer _ => exact .inl ⟨_, _, _, rfl, rfl, rfl⟩
  | poll hthread _ => exact .inr (.inl ⟨rfl, rfl, rfl, held_advance_same hthread rfl⟩)
  | receiveNextBuffer => exact .inr (.inl ⟨rfl, rfl, by simp, by simp⟩)
  | checkActiveClients => exact .inr (.inl ⟨rfl, rfl, rfl, rfl⟩)
  | failToAcquire hthread => exact .inr (.inl ⟨rfl, rfl, rfl, held_advance_same hthread rfl⟩)
  | takeBuffers hthread htake =>
      obtain ⟨⟨workingBuffers, sendBuffers⟩, hswap, heq⟩ := Option.map_eq_some_iff.mp htake
      obtain ⟨hwaiting, htaken⟩ := Lib.Mailbox.swap_waiting hswap
      subst heq
      refine .inr (.inr (.inl ⟨_, rfl, held_of_getElem? hthread, hwaiting, ?_⟩))
      rw [← htaken]
      exact held_advance (show ({ s with sendBuffers := sendBuffers } : Server).pool[_]? = _ from hthread) _
  | send hthread =>
      exact .inr (.inr (.inr ⟨_, _, _, rfl, held_of_getElem? hthread, rfl, held_advance hthread _⟩))
  | @updateClientActivityTime thread connectionID workingBuffers hthread =>
      refine .inr (.inl ⟨rfl, rfl, congrArg _ (sendBuffers_updateClientActivityTime s _), ?_⟩)
      have hthread' := getElem?_updateClientActivityTime hthread connectionID
      have hsame : PollThread.workingBuffers (.sending workingBuffers)
          = PollThread.workingBuffers (.updating connectionID workingBuffers) := rfl
      exact (held_advance_same hthread' hsame).trans (held_updateClientActivityTime s connectionID)
  | finish hthread => exact .inr (.inl ⟨rfl, rfl, rfl, held_advance_same hthread rfl⟩)

/-! ### The order in which one thread sends -/

theorem sentBy_snoc (thread : Nat) (acts : List Act) (act : Act) :
    sentBy thread (acts ++ [act]) = sentBy thread acts ++ sentBy thread [act] := by
  simp [sentBy, sent_snoc]

theorem sentBy_of_sent_nil {thread : Nat} {acts : List Act} {act : Act} (hsent : sent [act] = []) :
    sentBy thread (acts ++ [act]) = sentBy thread acts := by
  have hnone : sentBy thread [act] = [] := by
    rw [sentBy, hsent]
    rfl
  rw [sentBy_snoc, hnone, List.append_nil]

theorem copies_inOrder (acts : List Act) : InOrder (copies acts) := by
  have hserial : (copies acts).map Copy.serial = List.range' 0 (requested acts).length := by
    rw [← List.zipIdx_map_snd, copies, List.map_map]
    rfl
  have hpairwise : ((copies acts).map Copy.serial).Pairwise (· < ·) := by
    rw [hserial]
    exact List.pairwise_lt_range'
  exact List.pairwise_map.mp hpairwise

theorem inOrder_of_sublist {acts : List Act} {messages : List Copy}
    (hsub : messages.Sublist (copies acts)) : InOrder messages :=
  List.Pairwise.sublist hsub (copies_inOrder acts)

/-- What a thread has sent, what it holds and what waits were queued in this order. -/
theorem sentBy_sublist {threads : Nat} {acts : List Act} {s : Server} (hrun : Runs threads acts s)
    (thread : Nat) :
    (sentBy thread acts ++ s.held thread ++ s.sendBuffers.waiting).Sublist (copies acts) := by
  refine hrun.history_invariant
    (fun acts s => (sentBy thread acts ++ s.held thread ++ s.sendBuffers.waiting).Sublist (copies acts))
    ?_ ?_
  · rw [held_start]
    exact .refl _
  · intro acts s act s' hrun hsub hstep
    rcases step_cases hstep with
      ⟨caller, connectionID, buffer, rfl, hwaiting, hheld⟩ | ⟨hrequested, hsent, hwaiting, hheld⟩
        | ⟨taker, rfl, hnone, hwaiting, hheld⟩ | ⟨sender, copy, workingBuffers, rfl, hfirst, hwaiting, hheld⟩
    · rw [copies_sendBuffer, sentBy_of_sent_nil rfl, hwaiting, hheld, ← (sendsOnce hrun).copied,
        ← List.append_assoc _ s.sendBuffers.waiting]
      exact hsub.append_right _
    · rwa [copies_of_requested_nil hrequested, sentBy_of_sent_nil hsent, hwaiting, hheld]
    · rw [copies_of_requested_nil rfl, sentBy_of_sent_nil rfl, hwaiting, hheld, List.append_nil]
      rcases eq_or_ne thread taker with rfl | hne
      · rw [Function.update_self]
        rwa [hnone, List.append_nil] at hsub
      · rw [Function.update_of_ne hne]
        exact (List.sublist_append_left _ _).trans hsub
    · rw [copies_of_requested_nil rfl, sentBy_snoc, hwaiting, hheld]
      rcases eq_or_ne thread sender with rfl | hne
      · rw [Function.update_self]
        have hsent : sentBy thread [.send thread copy] = [copy] := by simp [sentBy, sent]
        rwa [hsent, List.append_assoc _ [copy], List.singleton_append, ← hfirst]
      · have hsent : sentBy thread [.send sender copy] = [] := by
          simp [sentBy, sent, hne.symm]
        rwa [Function.update_of_ne hne, hsent, List.append_nil]

/-! ### The order for one client -/

theorem toClient_append (client : UUID) (messages messages' : List Copy) :
    toClient client (messages ++ messages') = toClient client messages ++ toClient client messages' :=
  List.filter_append ..

theorem held_of_pending {client : UUID} {s : Server} (hpending : toClient client s.pending = [])
    (thread : Nat) : toClient client (s.held thread) = [] := by
  apply List.filter_eq_nil_iff.mpr
  intro copy hcopy
  apply List.filter_eq_nil_iff.mp hpending
  unfold Server.held at hcopy
  cases hthread : s.pool[thread]? with
  | none =>
      rw [hthread] at hcopy
      cases hcopy
  | some place =>
      rw [hthread] at hcopy
      exact List.mem_flatMap.mpr ⟨place, List.mem_of_getElem? hthread, hcopy⟩

/-- One thread at most holds messages for the client, and all of them are sent, held and waiting in the
order in which they were queued. -/
def HeldInOrder (client : UUID) (acts : List Act) (s : Server) : Prop :=
  ∃ holder, (∀ thread, thread ≠ holder → toClient client (s.held thread) = [])
    ∧ toClient client ((sent acts).map Prod.snd) ++ toClient client (s.held holder)
      ++ toClient client s.sendBuffers.waiting = toClient client (copies acts)

theorem heldInOrder_start (client : UUID) (threads : Nat) : HeldInOrder client [] (.start threads) := by
  refine ⟨0, ?_, ?_⟩
  · intro thread _
    rw [held_start]
    rfl
  · rw [held_start]
    rfl

theorem sent_send (acts : List Act) (thread : Nat) (copy : Copy) :
    (sent (acts ++ [.send thread copy])).map Prod.snd = (sent acts).map Prod.snd ++ [copy] := by
  rw [sent_snoc, List.map_append]
  rfl

/-- The thread that sends a message for the client is the holder, and the message moves from the front of
what it holds to the end of what has been sent. -/
theorem HeldInOrder.send {client : UUID} {acts : List Act} {s s' : Server} {sender : Nat} {copy : Copy}
    {workingBuffers : List Copy} (hs : HeldInOrder client acts s)
    (hfirst : s.held sender = copy :: workingBuffers)
    (hwaiting : s'.sendBuffers.waiting = s.sendBuffers.waiting)
    (hheld : s'.held = Function.update s.held sender workingBuffers) :
    HeldInOrder client (acts ++ [.send sender copy]) s' := by
  obtain ⟨holder, hothers, horder⟩ := hs
  unfold HeldInOrder
  rw [copies_of_requested_nil rfl, sent_send, hwaiting, hheld, toClient_append]
  by_cases hclient : copy.connectionID = client
  · have hcopy : toClient client [copy] = [copy] := List.filter_cons_of_pos (by simpa using hclient)
    have hrest : toClient client (s.held sender) = copy :: toClient client workingBuffers := by
      rw [hfirst]
      exact List.filter_cons_of_pos (by simpa using hclient)
    have hsender : sender = holder := by
      by_contra hne
      rw [hothers sender hne] at hrest
      cases hrest
    subst hsender
    refine ⟨sender, ?_, ?_⟩
    · intro thread hne
      rw [Function.update_of_ne hne]
      exact hothers thread hne
    · rw [Function.update_self, hcopy, List.append_assoc _ [copy], List.singleton_append, ← hrest, horder]
  · have hcopy : toClient client [copy] = [] := List.filter_cons_of_neg (by simpa using hclient)
    have hrest : ∀ thread, toClient client (Function.update s.held sender workingBuffers thread)
        = toClient client (s.held thread) := by
      intro thread
      rcases eq_or_ne thread sender with rfl | hne
      · rw [Function.update_self, hfirst]
        exact (List.filter_cons_of_neg (by simpa using hclient)).symm
      · rw [Function.update_of_ne hne]
    refine ⟨holder, ?_, ?_⟩
    · intro thread hne
      rw [hrest]
      exact hothers thread hne
    · rw [hrest, hcopy, List.append_nil, horder]

theorem heldInOrder_step {client : UUID} {acts : List Act} {s s' : Server} {act : Act}
    (hcopied : s.copied = (requested acts).length) (hs : HeldInOrder client acts s)
    (hstep : Lib.Restrict Step (TakesAlone client) s act s') :
    HeldInOrder client (acts ++ [act]) s' := by
  have halone := hstep.2
  rcases step_cases hstep.1 with
    ⟨caller, connectionID, buffer, rfl, hwaiting, hheld⟩ | ⟨hrequested, hsent, hwaiting, hheld⟩
      | ⟨taker, rfl, hnone, hwaiting, hheld⟩ | ⟨sender, copy, workingBuffers, rfl, hfirst, hwaiting, hheld⟩
  · obtain ⟨holder, hothers, horder⟩ := hs
    refine ⟨holder, hheld ▸ hothers, ?_⟩
    rw [copies_sendBuffer, sent_snoc, hwaiting, hheld, toClient_append, toClient_append, ← hcopied,
      ← horder, ← List.append_assoc]
    show toClient client ((sent acts ++ []).map Prod.snd) ++ _ ++ _ ++ _ = _
    rw [List.append_nil]
  · obtain ⟨holder, hothers, horder⟩ := hs
    refine ⟨holder, hheld ▸ hothers, ?_⟩
    rwa [copies_of_requested_nil hrequested, sent_snoc, hsent, List.append_nil, hwaiting, hheld]
  · -- nobody held a message for the client, so the one that takes is the only one that does
    obtain ⟨holder, hothers, horder⟩ := hs
    have hidle := held_of_pending (halone taker rfl)
    refine ⟨taker, ?_, ?_⟩
    · intro thread hne
      rw [hheld, Function.update_of_ne hne]
      exact hidle thread
    · rw [hidle holder, List.append_nil] at horder
      rw [copies_of_requested_nil rfl, sent_snoc, hwaiting, hheld, Function.update_self, ← horder]
      show toClient client ((sent acts ++ []).map Prod.snd) ++ _ ++ [] = _
      rw [List.append_nil, List.append_nil]
  · exact hs.send hfirst hwaiting hheld

theorem heldInOrder {threads : Nat} {client : UUID} {acts : List Act} {s : Server}
    (hrun : Lib.Run (Lib.Restrict Step (TakesAlone client)) (.start threads) acts s) :
    HeldInOrder client acts s :=
  hrun.history_invariant (HeldInOrder client) (heldInOrder_start client threads)
    fun _ _ _ _ hbefore hs hstep => heldInOrder_step (sendsOnce hbefore.forget).copied hs hstep

theorem sender_lt {threads : Nat} {acts : List Act} {s : Server} (hrun : Runs threads acts s) :
    ∀ send ∈ sent acts, send.1 < s.pool.length := by
  refine hrun.history_invariant (fun acts s => ∀ send ∈ sent acts, send.1 < s.pool.length) (by simp [sent]) ?_
  intro acts s act s' _ hs hstep send hsend
  rw [sent_snoc, List.mem_append] at hsend
  rcases hsend with hsend | hsend
  · exact (hs send hsend).trans_le (pool_step hstep)
  · cases hstep with
    | send hthread =>
        rw [List.mem_singleton.mp hsend]
        show _ < (s.pool.set _ _).length
        rw [List.length_set]
        exact (List.getElem?_eq_some_iff.mp hthread).1
    | _ => cases hsend

/-- **Who sends in order.** A thread does, and for a client all of them together do as long as no batch is
taken while a message for the client is in a working list; with one thread that is always so. -/
theorem sent_in_order {threads : Nat} {acts : List Act} {s : Server} (hrun : Runs threads acts s) :
    (∀ thread, InOrder (sentBy thread acts))
      ∧ (∀ client, Lib.Run (Lib.Restrict Step (TakesAlone client)) (.start threads) acts s →
          ∀ caller, InOrder (sentFor caller client acts))
      ∧ (s.pool.length = 1 → ∀ client caller, InOrder (sentFor caller client acts)) := by
  refine ⟨?_, ?_, ?_⟩
  · intro thread
    apply inOrder_of_sublist
    have hleft := List.sublist_append_left (sentBy thread acts) (s.held thread)
    exact (hleft.trans (List.sublist_append_left _ _)).trans (sentBy_sublist hrun thread)
  · intro client hrestricted caller
    obtain ⟨holder, _, horder⟩ := heldInOrder hrestricted
    have hprefix : (toClient client ((sent acts).map Prod.snd)).Sublist (toClient client (copies acts)) := by
      rw [← horder, List.append_assoc]
      exact List.sublist_append_left _ _
    apply inOrder_of_sublist
    exact (List.filter_sublist.trans hprefix).trans List.filter_sublist
  · intro hsingle client caller
    have hall : sentBy 0 acts = (sent acts).map Prod.snd := by
      unfold sentBy
      rw [List.filter_eq_self.mpr]
      intro send hsend
      have hlt := sender_lt hrun send hsend
      simp only [decide_eq_true_eq]
      omega
    apply inOrder_of_sublist
    have hfilter : (sentFor caller client acts).Sublist (sentBy 0 acts) := by
      rw [hall]
      exact List.filter_sublist.trans List.filter_sublist
    have hleft := List.sublist_append_left (sentBy 0 acts) (s.held 0)
    exact hfilter.trans ((hleft.trans (List.sublist_append_left _ _)).trans (sentBy_sublist hrun 0))

/-! ### Two threads, two clients -/

theorem runs_two_threads : Lib.Run (Lib.Restrict Step (TakesAlone (.replicate 1))) (.start 1)
    [.receiveNextBuffer 0 (.replicate 1), .receiveNextBuffer 0 (.replicate 2)]
    ⟨[.replicate 1, .replicate 2], [.polling, .polling], .empty, 0⟩ :=
  (Lib.Run.single ⟨.receiveNextBuffer (.replicate 1) (.inl rfl), fun _ h => nomatch h⟩).snoc
    ⟨.receiveNextBuffer (.replicate 2) (.inl rfl), fun _ h => nomatch h⟩

/-- The first message for client 1, in the hands of thread 0. -/
def firstCopy : Copy := ⟨0, 5, .replicate 1, message 1⟩

/-- The second message for client 1, in the hands of thread 1. -/
def secondCopy : Copy := ⟨1, 5, .replicate 1, message 2⟩

/-- Thread 0 takes and sends the first message, then thread 1 the second. -/
def inTurn : List Act :=
  [.receiveNextBuffer 0 (.replicate 1), .receiveNextBuffer 0 (.replicate 2),
    .sendBuffer 5 (.replicate 1) (message 1), .poll 0, .takeBuffers 0, .send 0 firstCopy,
    .sendBuffer 5 (.replicate 1) (message 2), .poll 1, .takeBuffers 1, .send 1 secondCopy]

/-- Thread 1 sends the second message while thread 0 still holds the first. -/
def overtaking : List Act :=
  [.receiveNextBuffer 0 (.replicate 1), .receiveNextBuffer 0 (.replicate 2),
    .sendBuffer 5 (.replicate 1) (message 1), .poll 0, .takeBuffers 0,
    .sendBuffer 5 (.replicate 1) (message 2), .poll 1, .takeBuffers 1, .send 1 secondCopy,
    .send 0 firstCopy]

theorem sent_in_order_inTurn : ∃ s, Runs 1 inTurn s ∧ InOrder (sentBy 1 inTurn)
    ∧ InOrder (sentFor 5 (.replicate 1) inTurn) := by
  have hfirst := ((runs_two_threads.snoc (a := .sendBuffer 5 (.replicate 1) (message 1))
    ⟨.sendBuffer _ 5 (message 1) (by decide), fun _ h => nomatch h⟩).snoc (a := .poll 0)
    ⟨.poll rfl (by exact Nat.one_ne_zero), fun _ h => nomatch h⟩).snoc (a := .takeBuffers 0)
    ⟨.takeBuffers rfl rfl, fun _ _ => rfl⟩
  have hsecond := ((hfirst.snoc (a := .send 0 firstCopy) ⟨.send rfl, fun _ h => nomatch h⟩).snoc
    (a := .sendBuffer 5 (.replicate 1) (message 2))
    ⟨.sendBuffer _ 5 (message 2) (by decide), fun _ h => nomatch h⟩).snoc (a := .poll 1)
    ⟨.poll rfl (by exact Nat.one_ne_zero), fun _ h => nomatch h⟩
  have hrun := (hsecond.snoc (a := .takeBuffers 1) ⟨.takeBuffers rfl rfl, fun _ _ => rfl⟩).snoc
    (a := .send 1 secondCopy) ⟨.send rfl, fun _ h => nomatch h⟩
  obtain ⟨hthread, hclient, _⟩ := sent_in_order hrun.forget
  exact ⟨_, hrun.forget, hthread 1, hclient _ hrun 5⟩

/-- Two messages of one caller for one client are sent the other way round. -/
theorem overtaking_not_inOrder :
    ∃ s, Runs 1 overtaking s ∧ ¬ InOrder (sentFor 5 (.replicate 1) overtaking) := by
  have hsent : sentFor 5 (.replicate 1) overtaking = [secondCopy, firstCopy] := by rfl
  have htaken := ((runs_two_threads.forget.snoc (a := .sendBuffer 5 (.replicate 1) (message 1))
    (.sendBuffer _ 5 (message 1) (by decide))).snoc (a := .poll 0)
    (.poll rfl (by exact Nat.one_ne_zero))).snoc (a := .takeBuffers 0) (.takeBuffers rfl rfl)
  have htaken' := ((htaken.snoc (a := .sendBuffer 5 (.replicate 1) (message 2))
    (.sendBuffer _ 5 (message 2) (by decide))).snoc (a := .poll 1)
    (.poll rfl (by exact Nat.one_ne_zero))).snoc (a := .takeBuffers 1) (.takeBuffers rfl rfl)
  have hrun := (htaken'.snoc (a := .send 1 secondCopy) (.send rfl)).snoc (a := .send 0 firstCopy)
    (.send rfl)
  refine ⟨_, hrun, ?_⟩
  rw [hsent]
  intro horder
  have hlt : secondCopy.serial < firstCopy.serial := by simpa [InOrder] using horder
  exact absurd hlt (by decide)

end Armore.Proxy.SendQueue
