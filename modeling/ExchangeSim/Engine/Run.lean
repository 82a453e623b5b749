import ExchangeSim.Engine.MatchingEngine
import ExchangeSim.Concurrency.SpscSemaphoreQueue

/-! `MatchingEngine::run` (`matching_engine.hpp`) against the thread that feeds its queue.
The engine thread tests the stop token, pops with `try_pop_for` and processes what it got;
once stop is requested it drains the queue with `try_pop` and returns. The producer pushes a
fixed list of events with blocking `push` calls, and stop is requested after the last of
them has returned. Both threads' queue steps are those of `SpscSemaphoreQueue`. A timed pop
may time out whatever the count; in the drain no other thread touches `filled_slots_`, so
`try_acquire` fails there only on a count of zero. -/
namespace ExchangeSim

/-- Where the engine thread is in `run`: at the test of the stop token, inside `try_pop_for`,
holding the event it popped, inside the drain's `try_pop`, holding the event drained, or
returned. -/
inductive Loop where
  | polling
  | popping
  | processing (event : OrderEvent)
  | draining
  | drainProcessing (event : OrderEvent)
  | returned
  deriving DecidableEq, Repr

namespace Loop

def pending : Loop → List OrderEvent
  | .processing event => [event]
  | .drainProcessing event => [event]
  | _ => []

def popped : Loop → OrderEvent → Loop
  | .draining, event => .drainProcessing event
  | _, event => .processing event

def stopping : Loop → Bool
  | .draining | .drainProcessing _ | .returned => true
  | _ => false

end Loop

def Producer.holding {α : Type} : Producer α → List α
  | .idle => []
  | .acquired value => [value]
  | .written value _ => [value]
  | .published value => [value]

/-- The engine thread, the producer and the queue between them. -/
structure Exchange where
  queue : SpscSemaphoreQueue OrderEvent
  engine : MatchingEngine
  loop : Loop
  stopRequested : Bool

namespace Exchange

variable (k : Nat) (events : List OrderEvent) (config : EngineConfig)

def start : Exchange := ⟨SpscSemaphoreQueue.new k,MatchingEngine.new config,.polling,false⟩

/-- One atomic step of the producer (the acquire of a free slot for the next event, then the
rest of its `push`), of the thread that calls `request_stop()` once every push has returned, or
of the engine (the stop-token test, the steps of a pop and the release that returns its event,
a time-out of `try_pop_for`, the drain's `try_pop` finding no event, and `process_event`). -/
inductive Step : Exchange → Exchange → Prop
  | pushBegin (s : Exchange) (event : OrderEvent) (next : events[s.queue.pushed.length]? = some event)
      (idle : s.queue.producer = .idle) (available : 0 < s.queue.freeSlots) :
      Step s { s with queue := { s.queue with freeSlots := s.queue.freeSlots - 1, producer := .acquired event } }
  | push (s : Exchange) (q : SpscSemaphoreQueue OrderEvent) (step : SpscSemaphoreQueue.Push k s.queue q)
      (busy : s.queue.producer ≠ .idle) : Step s { s with queue := q }
  | requestStop (s : Exchange) (pushedAll : s.queue.pushed.length = events.length)
      (idle : s.queue.producer = .idle) : Step s { s with stopRequested := true }
  | poll (s : Exchange) (polling : s.loop = .polling) (running : s.stopRequested = false) :
      Step s { s with loop := .popping }
  | stop (s : Exchange) (polling : s.loop = .polling) (stopped : s.stopRequested = true) :
      Step s { s with loop := .draining }
  | pop (s : Exchange) (q : SpscSemaphoreQueue OrderEvent) (step : SpscSemaphoreQueue.Pop k s.queue q)
      (inside : s.loop = .popping ∨ s.loop = .draining) (busy : q.consumer ≠ .idle) :
      Step s { s with queue := q }
  | popReturn (s : Exchange) (event : OrderEvent) (inside : s.loop = .popping ∨ s.loop = .draining)
      (retired : s.queue.consumer = .retired event) :
      Step s { s with
        queue := { s.queue with freeSlots := s.queue.freeSlots + 1, consumer := .idle, popped := s.queue.popped ++ [event] }
        loop := s.loop.popped event }
  | timeout (s : Exchange) (popping : s.loop = .popping) (idle : s.queue.consumer = .idle) :
      Step s { s with loop := .polling }
  | drained (s : Exchange) (draining : s.loop = .draining) (idle : s.queue.consumer = .idle)
      (empty : s.queue.filledSlots = 0) : Step s { s with loop := .returned }
  | process (s : Exchange) (event : OrderEvent) (processing : s.loop = .processing event) :
      Step s { s with engine := s.engine.processEvent event, loop := .polling }
  | drainProcess (s : Exchange) (event : OrderEvent) (processing : s.loop = .drainProcessing event) :
      Step s { s with engine := s.engine.processEvent event, loop := .draining }

inductive Reachable : Exchange → Prop
  | start : Reachable (start k config)
  | step {s s' : Exchange} : Reachable s → Step k events s s' → Reachable s'

/-- The run's invariant: the queue's own; the producer pushes the events in order; the
engine has processed, in order, what was popped except the event in hand; the consumer is
idle outside a pop; after the stop request every push has returned; the drain starts only
after it; and `run` returns with `filled_slots_` at zero. -/
structure Inv (s : Exchange) : Prop where
  queue : SpscSemaphoreQueue.Inv k s.queue
  feed : s.queue.pushed ++ s.queue.producer.holding <+: events
  engine : ∃ done, s.queue.popped = done ++ s.loop.pending ∧
    s.engine = (MatchingEngine.new config).processEvents done
  consumerIdle : s.loop ≠ .popping → s.loop ≠ .draining → s.queue.consumer = .idle
  stopped : s.stopRequested = true → s.queue.pushed = events ∧ s.queue.producer = .idle
  stopping : s.loop.stopping = true → s.stopRequested = true
  finished : s.loop = .returned → s.queue.filledSlots = 0

variable {k events config} {s s' : Exchange}

theorem inv_start : Inv k events config (start k config) where
  queue := SpscSemaphoreQueue.inv_new
  feed := List.nil_prefix
  engine := ⟨[],rfl,rfl⟩
  consumerIdle _ _ := rfl
  stopped stop := by cases stop
  stopping stop := by cases stop
  finished returned := by cases returned

theorem holding_push {q q' : SpscSemaphoreQueue OrderEvent} (step : SpscSemaphoreQueue.Push k q q')
    (busy : q.producer ≠ .idle) : q'.pushed ++ q'.producer.holding = q.pushed ++ q.producer.holding := by
  cases step with
  | acquireFree _ idle => exact absurd idle busy
  | failFree idle => exact absurd idle busy
  | write value acquired => simp [acquired,Producer.holding]
  | storeHead value head written => simp [written,Producer.holding]
  | releaseFilled value published => simp [published,Producer.holding]

theorem pop_frame {q q' : SpscSemaphoreQueue OrderEvent} (step : SpscSemaphoreQueue.Pop k q q')
    (busy : q'.consumer ≠ .idle) : q'.pushed = q.pushed ∧ q'.producer = q.producer ∧ q'.popped = q.popped := by
  cases step with
  | releaseFree _ _ => exact absurd rfl busy
  | _ => exact ⟨rfl,rfl,rfl⟩

theorem Inv.step (bound : k < 64) (inv : Inv k events config s) (step : Step k events s s') :
    Inv k events config s' := by
  obtain ⟨queue,feed,engine,consumerIdle,stopped,stopping,finished⟩ := inv
  cases step with
  | pushBegin event next idle available =>
    refine ⟨queue.push bound (.acquireFree _ event idle available),?_,engine,consumerIdle,?_,stopping,finished⟩
    · rw [idle,Producer.holding,List.append_nil] at feed
      exact SpscSemaphoreQueue.prefix_concat feed next
    · intro stop
      rw [(stopped stop).1] at next
      simp at next
  | push q step busy =>
    obtain ⟨done,popped,processed⟩ := engine
    refine ⟨queue.push bound step,(holding_push step busy) ▸ feed,⟨done,?_,processed⟩,?_,
      (fun stop => absurd (stopped stop).2 busy),stopping,?_⟩
    · cases step <;> exact popped
    · intro notPopping notDraining
      cases step <;> exact consumerIdle notPopping notDraining
    · intro returned
      have returned : s.loop = .returned := returned
      exact absurd (stopped (stopping (by rw [returned]; rfl))).2 busy
  | requestStop pushedAll idle =>
    rw [idle,Producer.holding,List.append_nil] at feed
    exact ⟨queue,(by simpa [idle,Producer.holding] using feed),engine,consumerIdle,
      (fun _ => ⟨feed.eq_of_length pushedAll,idle⟩),(fun _ => rfl),finished⟩
  | poll polling running =>
    exact ⟨queue,feed,(by simpa [polling,Loop.pending] using engine),(fun notPopping => absurd rfl notPopping),
      stopped,(fun stop => by cases stop),(fun returned => by cases returned)⟩
  | stop polling stop =>
    exact ⟨queue,feed,(by simpa [polling,Loop.pending] using engine),
      (fun _ notDraining => absurd rfl notDraining),stopped,(fun _ => stop),(fun returned => by cases returned)⟩
  | pop q step inside busy =>
    obtain ⟨pushed,producer,popped⟩ := pop_frame step busy
    refine ⟨queue.pop bound step,(by rwa [pushed,producer]),(by rwa [popped]),
      (fun notPopping notDraining => absurd inside (not_or.mpr ⟨notPopping,notDraining⟩)),
      (by rwa [pushed,producer]),stopping,fun returned => ?_⟩
    rcases inside with here | here <;> simp [here] at returned
  | popReturn event inside retired =>
    obtain ⟨done,popped,processed⟩ := engine
    have idle : s.loop.pending = [] := by rcases inside with here | here <;> simp [here,Loop.pending]
    refine ⟨queue.pop bound (.releaseFree _ event retired),feed,⟨done,?_,processed⟩,(fun _ _ => rfl),stopped,?_,?_⟩
    · rcases inside with here | here <;> simp [here,Loop.popped,Loop.pending,popped,idle]
    · rcases inside with here | here <;> simp [here,Loop.popped,Loop.stopping] at stopping ⊢
      exact stopping
    · rcases inside with here | here <;> simp [here,Loop.popped]
  | timeout popping idle =>
    exact ⟨queue,feed,(by simpa [popping,Loop.pending] using engine),(fun _ _ => idle),stopped,
      (fun stop => by cases stop),(fun returned => by cases returned)⟩
  | drained draining idle empty =>
    exact ⟨queue,feed,(by simpa [draining,Loop.pending] using engine),(fun _ _ => idle),stopped,
      (fun _ => stopping (by simp [draining,Loop.stopping])),(fun _ => empty)⟩
  | process event processing =>
    obtain ⟨done,popped,processed⟩ := engine
    refine ⟨queue,feed,⟨done ++ [event],(by simpa [processing,Loop.pending] using popped),?_⟩,
      (fun _ _ => consumerIdle (by simp [processing]) (by simp [processing])),stopped,
      (fun stop => by cases stop),(fun returned => by cases returned)⟩
    simp [processed,MatchingEngine.processEvents]
  | drainProcess event processing =>
    obtain ⟨done,popped,processed⟩ := engine
    refine ⟨queue,feed,⟨done ++ [event],(by simpa [processing,Loop.pending] using popped),?_⟩,
      (fun _ notDraining => absurd rfl notDraining),stopped,
      (fun _ => stopping (by simp [processing,Loop.stopping])),(fun returned => by cases returned)⟩
    simp [processed,MatchingEngine.processEvents]

theorem Reachable.inv (bound : k < 64) (reach : Reachable k events config s) : Inv k events config s := by
  induction reach with
  | start => exact inv_start
  | step _ step ih => exact ih.step bound step

theorem Inv.returned (inv : Inv k events config s) (returned : s.loop = .returned) :
    s.queue.popped = events ∧ s.engine = (MatchingEngine.new config).processEvents events := by
  obtain ⟨pushed,-⟩ := inv.stopped (inv.stopping (by rw [returned]; rfl))
  have counts := inv.queue.filled
  rw [inv.finished returned,inv.consumerIdle (by simp [returned]) (by simp [returned]),pushed] at counts
  have all : s.queue.popped = events :=
    (pushed ▸ inv.queue.popped_prefix).eq_of_length (by simp only [Consumer.inside] at counts; omega)
  obtain ⟨done,popped,processed⟩ := inv.engine
  have popped : s.queue.popped = done := by simpa [returned,Loop.pending] using popped
  exact ⟨all,by rw [processed,← popped,all]⟩

variable (k config) in
structure Quiet (done : List OrderEvent) (s : Exchange) : Prop where
  producer : s.queue.producer = .idle
  consumer : s.queue.consumer = .idle
  free : s.queue.freeSlots = 2^k
  filled : s.queue.filledSlots = 0
  pushed : s.queue.pushed = done
  popped : s.queue.popped = done
  indices : s.queue.head = s.queue.tail
  polling : s.loop = .polling
  running : s.stopRequested = false
  engine : s.engine = (MatchingEngine.new config).processEvents done

theorem Quiet.next {done : List OrderEvent} {event : OrderEvent} (quiet : Quiet k config done s)
    (reach : Reachable k events config s) (next : events[done.length]? = some event) :
    ∃ s', Reachable k events config s' ∧ Quiet k config (done ++ [event]) s' := by
  obtain ⟨idle,consumerIdle,free,filled,pushed,popped,indices,polling,running,engine⟩ := quiet
  have r1 := reach.step (.pushBegin s event (by rw [pushed]; exact next) idle
    (by rw [free]; exact Nat.two_pow_pos k))
  have r2 := r1.step (.push _ _ (.write _ event rfl) (by simp))
  have r3 := r2.step (.push _ _ (.storeHead _ event _ rfl) (by simp))
  have r4 := r3.step (.push _ _ (.releaseFilled _ event rfl) (by simp))
  have r5 := r4.step (.poll _ polling running)
  have r6 := r5.step (.pop _ _ (.acquireFilled _ consumerIdle (by simp)) (.inl rfl) (by simp))
  have r7 := r6.step (.pop _ _ (.read _ rfl) (.inl rfl) (by simp))
  have r8 := r7.step (.pop _ _ (.storeTail _ _ _ rfl) (.inl rfl) (by simp))
  have r9 := r8.step (.popReturn _ _ (.inl rfl) rfl)
  have r10 := r9.step (.process _ _ rfl)
  have read : Function.update s.queue.buffer (s.queue.head.toNat &&& (SpscSemaphoreQueue.mask k).toNat) event
      (s.queue.tail.toNat &&& (SpscSemaphoreQueue.mask k).toNat) = event := by
    rw [indices,Function.update_same]
  refine ⟨_,r10,?_⟩
  constructor <;> simp [read,indices,pushed,popped,free,filled,engine,running,MatchingEngine.processEvents]
  have := Nat.two_pow_pos k
  omega

theorem quiet_start : Quiet k config [] (start k config) :=
  ⟨rfl,rfl,rfl,rfl,rfl,rfl,rfl,rfl,rfl,rfl⟩

variable (k events config) in
theorem exists_returned : ∃ s, Reachable k events config s ∧ s.loop = .returned ∧
    s.engine = (MatchingEngine.new config).processEvents events := by
  have quiet : ∀ rest done s, done ++ rest = events → Reachable k events config s → Quiet k config done s →
      ∃ s', Reachable k events config s' ∧ Quiet k config events s' := by
    intro rest
    induction rest with
    | nil =>
      intro done s all reach quiet
      rw [List.append_nil] at all
      exact ⟨s,reach,all ▸ quiet⟩
    | cons event rest ih =>
      intro done s all reach quiet
      obtain ⟨s',reach',quiet'⟩ := quiet.next reach (show events[done.length]? = some event by rw [← all]; simp [List.getElem_append_right])
      exact ih _ s' (by simp [all]) reach' quiet'
  obtain ⟨s,reach,quiet⟩ := quiet events [] _ rfl .start quiet_start
  have r1 := reach.step (.requestStop _ (by rw [quiet.pushed]) quiet.producer)
  have r2 := r1.step (.stop _ quiet.polling rfl)
  exact ⟨_,r2.step (.drained _ rfl quiet.consumer quiet.filled),rfl,quiet.engine⟩

/-- `events_processed` counts only the events that pass the risk gate: a run that pushes one
event of quantity 0 returns with the event processed, rejected, and not counted. -/
theorem rejected_event_uncounted :
    ∃ s, Reachable 1 [.newLimit 1 0 .buy 100 0] {} s ∧ s.loop = .returned ∧
      s.engine.eventsProcessed = 0 ∧ s.engine.stats.rejectedCount = 1 :=
  let ⟨s,reach,returned,engine⟩ := exists_returned 1 [.newLimit 1 0 .buy 100 0] {}
  ⟨s,reach,returned,by rw [engine]; decide,by rw [engine]; decide⟩

/-- Whatever the interleaving and the timing of the stop request, when `run` returns the
queue has delivered the pushed events in push order, `process_event` has been applied to
each once, in that order, and each is counted once, in `events_processed` or in
`rejected_count`. -/
theorem run_processes_each_once (bound : k < 64) (reach : Reachable k events config s)
    (returned : s.loop = .returned) :
    s.queue.popped = events ∧ s.engine = (MatchingEngine.new config).processEvents events ∧
      s.engine.eventsProcessed + s.engine.stats.rejectedCount = BitVec.ofNat 64 events.length := by
  obtain ⟨popped,engine⟩ := (reach.inv bound).returned returned
  refine ⟨popped,engine,?_⟩
  rw [engine,MatchingEngine.processEvents_counts]
  simp [MatchingEngine.new]

theorem run_processes_one_event :
    ∃ s, (1 < 64 ∧ Reachable 1 [.newLimit 1 0 .buy 100 10] {} s ∧ s.loop = .returned) ∧
      s.queue.popped = [.newLimit 1 0 .buy 100 10] ∧
      s.engine = (MatchingEngine.new {}).processEvents [.newLimit 1 0 .buy 100 10] ∧
      s.engine.eventsProcessed + s.engine.stats.rejectedCount =
        BitVec.ofNat 64 [OrderEvent.newLimit 1 0 .buy 100 10].length :=
  let ⟨s,reach,returned,_⟩ := exists_returned 1 [.newLimit 1 0 .buy 100 10] {}
  ⟨s,⟨by decide,reach,returned⟩,run_processes_each_once (by decide) reach returned⟩

end Exchange

end ExchangeSim
