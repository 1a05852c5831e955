import ShadeIndexer.Core.Backoff

/-!
What a whole run of the subscriber delivers. A log counts if it is handled while
the receiver is there. How the logs are spread over subscriptions, and what
fails between these, leaves no trace in the channel.
-/

namespace ShadeIndexer.Core

/-- The logs of one stream that find the receiver open when their deploy is
sent. -/
def heardLogs : List Arrival → List Log
  | [] => []
  | arrival :: rest =>
    if arrival.dropBeforeSend then []
    else arrival.log :: if arrival.dropBeforeCheck then [] else heardLogs rest

def Attempt.arrivals (attempt : Attempt) : List Arrival :=
  match attempt.outcome with
  | .established arrivals => arrivals
  | _ => []

/-- The logs of a run that find the receiver open. -/
def heard : List Attempt → List Log
  | [] => []
  | attempt :: rest =>
    if attempt.dropBefore then []
    else heardLogs attempt.arrivals ++ if attempt.drops then [] else heard rest

theorem Attempt.drops_eq (attempt : Attempt) :
    attempt.drops = (attempt.dropBefore || attempt.arrivals.any Arrival.drops) := by
  obtain ⟨dropBefore, outcome⟩ := attempt
  cases outcome <;> rfl

theorem Attempt.noticesDrop_undisturbed {attempt : Attempt} (h : attempt.drops = false) :
    attempt.noticesDrop false = false := by
  cases hnotices : attempt.noticesDrop false with
  | false => rfl
  | true =>
      have hnow := Attempt.noticesDrop_closed hnotices
      rw [Bool.false_or, h] at hnow
      cases hnow

/-- Nothing reaches a channel whose receiver is gone. -/
theorem handleLog_dropped (reg : FactoryRegistry) (log : Log) (delivered : List NormalizedDeploy) :
    (handleLog reg log ⟨delivered, true⟩).2 = ⟨delivered, true⟩ := by
  unfold handleLog
  cases log.topics.head? with
  | none => rfl
  | some topic0 =>
      cases hroute : reg.matchLog log.address topic0 with
      | none => simp [hroute]
      | some launchpad =>
          cases hdecode : decodeDeploy launchpad log with
          | error fault => simp [hroute, hdecode]
          | ok deploy => simp [hroute, hdecode, Sender.send]

theorem streamLoop_dropped (reg : FactoryRegistry) (arrivals : List Arrival)
    (delivered : List NormalizedDeploy) :
    (streamLoop reg arrivals ⟨delivered, true⟩).2 = ⟨delivered, true⟩ := by
  cases arrivals with
  | nil => rfl
  | cons arrival rest =>
      have hafter : afterLog reg arrival ⟨delivered, true⟩ = ⟨delivered, true⟩ := by
        simp only [afterLog, Sender.dropIf, Bool.true_or, handleLog_dropped]
      rw [streamLoop_cons, hafter]
      rfl

/-- One log, by whether the receiver is still there at either moment. -/
theorem afterLog_heard (reg : FactoryRegistry) (arrival : Arrival)
    (delivered : List NormalizedDeploy) :
    afterLog reg arrival ⟨delivered, false⟩ =
      if arrival.dropBeforeSend then ⟨delivered, true⟩
      else ⟨delivered ++ (deployOf reg arrival.log).toList, arrival.dropBeforeCheck⟩ := by
  obtain ⟨log, beforeSend, beforeCheck⟩ := arrival
  cases beforeSend with
  | true => simp only [afterLog, Sender.dropIf, Bool.false_or, handleLog_dropped, Bool.true_or,
      if_true]
  | false => simp [afterLog, Sender.dropIf, handleLog_delivers]

/-- A stream delivers the deploys of the logs that it has heard. -/
theorem streamLoop_heard (reg : FactoryRegistry) (arrivals : List Arrival)
    (delivered : List NormalizedDeploy) :
    (streamLoop reg arrivals ⟨delivered, false⟩).2.delivered =
      delivered ++ (heardLogs arrivals).filterMap (deployOf reg) := by
  induction arrivals generalizing delivered with
  | nil => simp [streamLoop, heardLogs]
  | cons arrival rest ih =>
      rw [streamLoop_cons, afterLog_heard, heardLogs]
      cases hsend : arrival.dropBeforeSend with
      | true => simp
      | false =>
          cases hcheck : arrival.dropBeforeCheck with
          | true => cases hdeploy : deployOf reg arrival.log <;> simp [hdeploy]
          | false =>
              have hrest := ih (delivered ++ (deployOf reg arrival.log).toList)
              simp only [Bool.false_eq_true, if_false] at hrest ⊢
              rw [hrest]
              cases hdeploy : deployOf reg arrival.log <;> simp [hdeploy]

/-- What one attempt adds to a channel that is open before it. -/
theorem runOnce_heard (reg : FactoryRegistry) (attempt : Attempt)
    (delivered : List NormalizedDeploy) :
    (runOnce reg attempt ⟨delivered, false⟩).2.delivered =
      delivered ++
        (if attempt.dropBefore then [] else heardLogs attempt.arrivals).filterMap
          (deployOf reg) := by
  obtain ⟨dropBefore, outcome⟩ := attempt
  cases outcome with
  | connectFailed e =>
      cases dropBefore <;> simp [runOnce, Attempt.arrivals, heardLogs, Sender.dropIf]
  | subscribeFailed e =>
      cases dropBefore <;> simp [runOnce, Attempt.arrivals, heardLogs, Sender.dropIf]
  | established arrivals =>
      cases dropBefore with
      | true => simp [runOnce, Sender.dropIf, streamLoop_dropped]
      | false => simp [runOnce, Sender.dropIf, Attempt.arrivals, streamLoop_heard]

theorem runOnce_dropped (reg : FactoryRegistry) (attempt : Attempt)
    (delivered : List NormalizedDeploy) :
    (runOnce reg attempt ⟨delivered, true⟩).2 = ⟨delivered, true⟩ := by
  obtain ⟨dropBefore, outcome⟩ := attempt
  cases outcome with
  | connectFailed e => rfl
  | subscribeFailed e => rfl
  | established arrivals => exact streamLoop_dropped reg arrivals delivered

/-- The channel behind one turn of the reconnect loop. -/
theorem reconnectLoop_out (reg : FactoryRegistry) (attempt : Attempt) (rest : List Attempt)
    (backoff : Nat) (out : Sender) :
    ∃ backoff', (reconnectLoop reg (attempt :: rest) backoff out).out =
      if attempt.noticesDrop out.closed then (runOnce reg attempt out).2
      else (reconnectLoop reg rest backoff' (runOnce reg attempt out).2).out := by
  refine ⟨min (backoff * 2) reconnectBackoffMax, ?_⟩
  rw [reconnectLoop_cons]
  split <;> rfl

theorem reconnectLoop_dropped (reg : FactoryRegistry) (attempts : List Attempt) (backoff : Nat)
    (delivered : List NormalizedDeploy) :
    (reconnectLoop reg attempts backoff ⟨delivered, true⟩).out = ⟨delivered, true⟩ := by
  induction attempts generalizing backoff with
  | nil => rfl
  | cons attempt rest ih =>
      obtain ⟨backoff', hout⟩ := reconnectLoop_out reg attempt rest backoff ⟨delivered, true⟩
      rw [hout, runOnce_dropped, ih, ite_self]

/-- Whether or not the drop is noticed, nothing more is delivered behind it. -/
theorem reconnectLoop_after_drop (reg : FactoryRegistry) (attempt : Attempt) (rest : List Attempt)
    (backoff : Nat) (out : Sender) (h : (runOnce reg attempt out).2.closed = true) :
    (reconnectLoop reg (attempt :: rest) backoff out).out = (runOnce reg attempt out).2 := by
  obtain ⟨backoff', hout⟩ := reconnectLoop_out reg attempt rest backoff out
  rcases hrun : (runOnce reg attempt out).2 with ⟨after, closed⟩
  rw [hrun] at h hout
  dsimp only at h
  rw [hout, h, reconnectLoop_dropped, ite_self]

/-- The loop goes on from what an attempt has delivered, and delivers nothing
more once the receiver is gone. -/
theorem reconnectLoop_heard (reg : FactoryRegistry) (attempts : List Attempt) (backoff : Nat)
    (delivered : List NormalizedDeploy) :
    (reconnectLoop reg attempts backoff ⟨delivered, false⟩).out.delivered =
      delivered ++ (heard attempts).filterMap (deployOf reg) := by
  induction attempts generalizing backoff delivered with
  | nil => simp [reconnectLoop, heard]
  | cons attempt rest ih =>
      have hclosed := (runOnce_spec reg attempt ⟨delivered, false⟩).2
      have hdelivered := runOnce_heard reg attempt delivered
      have hdrops := attempt.drops_eq
      rw [Bool.false_or] at hclosed
      rw [heard]
      cases hdropped : attempt.drops with
      | true =>
          rw [hdropped] at hclosed
          rw [reconnectLoop_after_drop reg attempt rest backoff _ hclosed, hdelivered]
          simp
      | false =>
          rw [hdropped] at hclosed hdrops
          have hbefore : attempt.dropBefore = false := (Bool.or_eq_false_iff.mp hdrops.symm).1
          have hopen := Attempt.noticesDrop_undisturbed hdropped
          obtain ⟨backoff', hout⟩ := reconnectLoop_out reg attempt rest backoff ⟨delivered, false⟩
          rw [hopen] at hout
          rcases hrun : (runOnce reg attempt ⟨delivered, false⟩).2 with ⟨after, closed⟩
          rw [hrun] at hclosed hdelivered hout
          dsimp only at hclosed hdelivered
          rw [hclosed] at hout
          simp only [hbefore, Bool.false_eq_true, if_false] at hdelivered hout ⊢
          rw [hout, ih, hdelivered, List.filterMap_append, List.append_assoc]

theorem run_heard (reg : FactoryRegistry) (attempts : List Attempt) :
    (LaunchpadSubscriber.run reg attempts).out.delivered =
      (heard attempts).filterMap (deployOf reg) :=
  reconnectLoop_heard reg attempts initialBackoff []

theorem reconnects_undisturbed {attempts : List Attempt}
    (h : ∀ attempt ∈ attempts, attempt.drops = false) : reconnects attempts false = attempts := by
  induction attempts with
  | nil => rfl
  | cons attempt rest ih =>
      have hhead := h attempt (List.mem_cons_self ..)
      rw [reconnects, Attempt.noticesDrop_undisturbed hhead, hhead, Bool.or_false]
      simp only [Bool.false_eq_true, if_false]
      rw [ih fun other hother => h other (List.mem_cons_of_mem _ hother)]

theorem heardLogs_undisturbed {arrivals : List Arrival}
    (h : arrivals.any Arrival.drops = false) : heardLogs arrivals = arrivals.map Arrival.log := by
  induction arrivals with
  | nil => rfl
  | cons arrival rest ih =>
      rw [List.any_cons, Bool.or_eq_false_iff, Arrival.drops, Bool.or_eq_false_iff] at h
      obtain ⟨⟨hsend, hcheck⟩, hrest⟩ := h
      rw [heardLogs, hsend, hcheck, ih hrest]
      rfl

/-- Then every log of every subscription is heard. -/
theorem heard_undisturbed {attempts : List Attempt}
    (h : ∀ attempt ∈ attempts, attempt.drops = false) :
    heard attempts = attempts.flatMap fun attempt => attempt.arrivals.map Arrival.log := by
  induction attempts with
  | nil => rfl
  | cons attempt rest ih =>
      have hhead := h attempt (List.mem_cons_self ..)
      have hdrops := attempt.drops_eq
      rw [hhead, eq_comm, Bool.or_eq_false_iff] at hdrops
      rw [heard, hdrops.1, hhead, heardLogs_undisturbed hdrops.2, List.flatMap_cons]
      simp only [Bool.false_eq_true, if_false]
      rw [ih fun other hother => h other (List.mem_cons_of_mem _ hother)]

theorem heardLogs_beginning (arrivals : List Arrival) :
    heardLogs arrivals <+: arrivals.map Arrival.log := by
  induction arrivals with
  | nil => exact List.prefix_refl _
  | cons arrival rest ih =>
      rw [heardLogs, List.map_cons]
      split
      · exact List.nil_prefix
      · rw [List.prefix_cons_inj]
        split
        · exact List.nil_prefix
        · exact ih

/-- What is heard is a beginning of what all subscriptions send. -/
theorem heard_prefix (attempts : List Attempt) :
    heard attempts <+: attempts.flatMap fun attempt => attempt.arrivals.map Arrival.log := by
  induction attempts with
  | nil => exact List.prefix_refl _
  | cons attempt rest ih =>
      rw [heard, List.flatMap_cons]
      split
      · exact List.nil_prefix
      · split
        · rw [List.append_nil]
          exact (heardLogs_beginning attempt.arrivals).trans (List.prefix_append _ _)
        · rename_i hkept
          have hdrops := attempt.drops_eq
          rw [Bool.not_eq_true] at hkept
          rw [hkept, eq_comm, Bool.or_eq_false_iff] at hdrops
          rw [heardLogs_undisturbed hdrops.2, List.prefix_append_right_inj]
          exact ih

/-- Over all of its reconnects the subscriber delivers the deploys of the logs
that it hears: each once, in their order, and nothing else. It hears the logs of
all its subscriptions up to the moment the receiver is dropped, and so every one
of them if it never is. -/
theorem delivery_across_reconnects (reg : FactoryRegistry) (attempts : List Attempt) :
    (LaunchpadSubscriber.run reg attempts).out.delivered =
        (heard attempts).filterMap (deployOf reg) ∧
      (heard attempts <+: attempts.flatMap fun attempt => attempt.arrivals.map Arrival.log) ∧
      ((∀ attempt ∈ attempts, attempt.drops = false) →
        (LaunchpadSubscriber.run reg attempts).out.delivered =
          (attempts.flatMap fun attempt => attempt.arrivals.map Arrival.log).filterMap
            (deployOf reg)) := by
  refine ⟨run_heard reg attempts, heard_prefix attempts, ?_⟩
  intro hstays
  rw [run_heard, heard_undisturbed hstays]

end ShadeIndexer.Core
