import Mathlib.Data.BitVec
import Mathlib.Logic.Relation
import ExchangeSim.Concurrency.SpscSemaphoreQueue

/-! `AsyncLogger` (`async_logger.hpp`) as a step relation over its two threads: the thread
that calls `log` (the engine's) and the flush thread, which runs `flush`. A `log` call loads
`head_`, loads `tail_` (acquire), and then either counts a drop, or writes its entry at
`buffer_[head]`, stores `next_head` (release) and counts the message. A `flush` loads
`tail_`, loads `head_` (acquire), writes the entries from its `tail` up to that `head` to
`file_` one loop iteration a step, and stores `tail_` (release). `head_` and `tail_` hold
indices below `DEFAULT_BUFFER_SIZE`; the two message counters are `uint64_t`.

Two ghost fields, which the C++ object does not have, record the entries whose `head_` store
has happened and the number of entries the last `tail_` store freed. A run also records the
texts of the `log` calls it makes. -/
namespace ExchangeSim

structure LogEntry where
  timestamp : BitVec 64
  message : List Char
  deriving DecidableEq, Repr, Inhabited

namespace LogEntry

def maxMessageSize : Nat := 256

/-- The entry a `log` call writes: `now_ns()` and the first `MAX_MESSAGE_SIZE - 1` characters
of its text, which is `fmt` itself without arguments and what `snprintf` prints otherwise
(nothing when it fails). -/
def make (timestamp : BitVec 64) (text : List Char) : LogEntry :=
  ⟨timestamp,text.take (maxMessageSize - 1)⟩

end LogEntry

inductive Writer where
  | idle
  | loaded (text : List Char) (head : Nat)
  | checked (text : List Char) (head tail : Nat)
  | written (entry : LogEntry) (head : Nat)
  | published
  deriving DecidableEq, Repr

inductive Flusher where
  | idle
  | loaded (tail : Nat)
  | draining (tail head : Nat)
  deriving DecidableEq, Repr

def Writer.uncounted : Writer → Nat
  | .published => 1
  | _ => 0

def Writer.active : Writer → Nat
  | .idle => 0
  | _ => 1

/-- The texts of the `log` calls made, after a step that takes the calling thread from `before`
to `after`: a call is made at its load of `head_`. -/
def Writer.calls (before after : Writer) (made : List (List Char)) : List (List Char) :=
  match before, after with
  | .idle, .loaded text _ => made ++ [text]
  | _, _ => made

theorem Writer.calls_self (writer : Writer) (made : List (List Char)) : writer.calls writer made = made := by
  cases writer <;> rfl

def Writer.pending : Writer → Nat
  | .loaded _ _ | .checked _ _ _ | .written _ _ => 1
  | _ => 0

namespace AsyncLogger

def defaultBufferSize : Nat := 4096

def bufferMask : Nat := defaultBufferSize - 1

theorem and_bufferMask (n : Nat) : n &&& bufferMask = n % defaultBufferSize :=
  Nat.and_pow_two_sub_one_eq_mod n 12

end AsyncLogger

def Writer.Sound (buffer : Nat → LogEntry) (published freed : Nat) : Writer → Prop
  | .idle => True
  | .loaded _ head => head = published % AsyncLogger.defaultBufferSize
  | .checked _ head tail => head = published % AsyncLogger.defaultBufferSize ∧
      ∃ seen, seen ≤ freed ∧ published ≤ seen + AsyncLogger.bufferMask ∧ tail = seen % AsyncLogger.defaultBufferSize
  | .written entry head => head = published % AsyncLogger.defaultBufferSize ∧ published < freed + AsyncLogger.bufferMask ∧
      buffer head = entry
  | .published => 0 < published

def Writer.Current (made : List (List Char)) : Writer → Prop
  | .loaded text _ | .checked text _ _ => made.getLast? = some text
  | .written entry _ => ∃ text, made.getLast? = some text ∧ entry.message = text.take (LogEntry.maxMessageSize - 1)
  | _ => True

def Flusher.Sound (written freed published : Nat) : Flusher → Prop
  | .idle => written = freed
  | .loaded tail => written = freed ∧ tail = freed % AsyncLogger.defaultBufferSize
  | .draining tail head => tail = written % AsyncLogger.defaultBufferSize ∧
      ∃ seen, written ≤ seen ∧ seen ≤ published ∧ head = seen % AsyncLogger.defaultBufferSize

theorem Writer.Sound.freed_le {buffer : Nat → LogEntry} {published freed freed' : Nat} {writer : Writer}
    (sound : writer.Sound buffer published freed) (more : freed ≤ freed') :
    writer.Sound buffer published freed' := by
  cases writer with
  | checked _ _ _ =>
    obtain ⟨head,seen,before,within,tail⟩ := sound
    exact ⟨head,seen,before.trans more,within,tail⟩
  | written _ _ =>
    obtain ⟨head,room,slot⟩ := sound
    exact ⟨head,by omega,slot⟩
  | _ => exact sound

theorem Flusher.Sound.published_le {written freed published published' : Nat} {flusher : Flusher}
    (sound : flusher.Sound written freed published) (more : published ≤ published') :
    flusher.Sound written freed published' := by
  cases flusher with
  | draining _ _ =>
    obtain ⟨tail,seen,after,before,head⟩ := sound
    exact ⟨tail,seen,after,before.trans more,head⟩
  | _ => exact sound

structure AsyncLogger where
  buffer : Nat → LogEntry
  head : Nat
  tail : Nat
  messagesLogged : BitVec 64
  messagesDropped : BitVec 64
  writer : Writer
  flusher : Flusher
  file : List LogEntry
  published : List LogEntry
  freed : Nat

namespace AsyncLogger

def new : AsyncLogger := ⟨fun _ => default,0,0,0,0,.idle,.idle,[],[],0⟩

/-- One atomic step of a `log` call; `timestamp` is the value of `now_ns()`. -/
inductive Log : AsyncLogger → AsyncLogger → Prop
  | loadHead (s : AsyncLogger) (text : List Char) (idle : s.writer = .idle) :
      Log s { s with writer := .loaded text s.head }
  | loadTail (s : AsyncLogger) (text : List Char) (head : Nat) (loaded : s.writer = .loaded text head) :
      Log s { s with writer := .checked text head s.tail }
  | drop (s : AsyncLogger) (text : List Char) (head tail : Nat) (checked : s.writer = .checked text head tail)
      (full : (head + 1) &&& bufferMask = tail) :
      Log s { s with messagesDropped := s.messagesDropped + 1, writer := .idle }
  | write (s : AsyncLogger) (text : List Char) (head tail : Nat) (timestamp : BitVec 64)
      (checked : s.writer = .checked text head tail) (room : (head + 1) &&& bufferMask ≠ tail) :
      Log s { s with
        buffer := Function.update s.buffer head (LogEntry.make timestamp text)
        writer := .written (LogEntry.make timestamp text) head }
  | storeHead (s : AsyncLogger) (entry : LogEntry) (head : Nat) (written : s.writer = .written entry head) :
      Log s { s with head := (head + 1) &&& bufferMask, writer := .published, published := s.published ++ [entry] }
  | count (s : AsyncLogger) (published : s.writer = .published) :
      Log s { s with messagesLogged := s.messagesLogged + 1, writer := .idle }

/-- One atomic step of `flush`, a loop iteration a step; `file_.flush()` changes nothing modelled. -/
inductive Flush : AsyncLogger → AsyncLogger → Prop
  | loadTail (s : AsyncLogger) (idle : s.flusher = .idle) : Flush s { s with flusher := .loaded s.tail }
  | loadHead (s : AsyncLogger) (tail : Nat) (loaded : s.flusher = .loaded tail) :
      Flush s { s with flusher := .draining tail s.head }
  | emit (s : AsyncLogger) (tail head : Nat) (draining : s.flusher = .draining tail head) (pending : tail ≠ head) :
      Flush s { s with flusher := .draining ((tail + 1) &&& bufferMask) head, file := s.file ++ [s.buffer tail] }
  | storeTail (s : AsyncLogger) (tail : Nat) (done : s.flusher = .draining tail tail) :
      Flush s { s with tail := tail, flusher := .idle, freed := s.file.length }

inductive Step : AsyncLogger → AsyncLogger → Prop
  | log {s s' : AsyncLogger} : Log s s' → Step s s'
  | flush {s s' : AsyncLogger} : Flush s s' → Step s s'

inductive Reachable : AsyncLogger → Prop
  | new : Reachable new
  | step {s s' : AsyncLogger} : Reachable s → Step s s' → Reachable s'

/-- The interleavings again, with the texts of the `log` calls each has made, in order. -/
inductive Run : List (List Char) → AsyncLogger → Prop
  | new : Run [] new
  | step {made : List (List Char)} {s s' : AsyncLogger} : Run made s → Step s s' → Run (s.writer.calls s'.writer made) s'

theorem Run.reachable {made : List (List Char)} {s : AsyncLogger} (run : Run made s) : Reachable s := by
  induction run with
  | new => exact .new
  | step _ step ih => exact ih.step step

/-- The logger's invariant: the file holds the first published entries; at most
`DEFAULT_BUFFER_SIZE - 1` entries are published and not freed; `head_` and `tail_` are the
published and freed counts modulo `DEFAULT_BUFFER_SIZE`; the `p`-th published entry sits in slot
`p % DEFAULT_BUFFER_SIZE` until the file holds it; each thread's locals are sound; and
`messages_logged_` counts the published entries. -/
structure Inv (s : AsyncLogger) : Prop where
  order : s.file <+: s.published
  freedLe : s.freed ≤ s.file.length
  pending : s.published.length ≤ s.freed + bufferMask
  head : s.head = s.published.length % defaultBufferSize
  tail : s.tail = s.freed % defaultBufferSize
  slots : ∀ p entry, s.file.length ≤ p → s.published[p]? = some entry → s.buffer (p % defaultBufferSize) = entry
  writer : s.writer.Sound s.buffer s.published.length s.freed
  flusher : s.flusher.Sound s.file.length s.freed s.published.length
  logged : s.messagesLogged = BitVec.ofNat 64 (s.published.length - s.writer.uncounted)

variable {s s' : AsyncLogger}

theorem slot_apart {published freed p : Nat} (room : published < freed + bufferMask) (after : freed ≤ p)
    (before : p < published) : p % defaultBufferSize ≠ published % defaultBufferSize := by
  simp only [bufferMask,defaultBufferSize] at *
  omega

theorem Inv.checked_full (inv : Inv s) {text : List Char} {head tail : Nat}
    (checked : s.writer = .checked text head tail) :
    ∃ seen, seen ≤ s.freed ∧ s.published.length ≤ seen + bufferMask ∧ tail = seen % defaultBufferSize ∧
      ((head + 1) &&& bufferMask = tail ↔ s.published.length = seen + bufferMask) := by
  have sound := inv.writer
  rw [checked] at sound
  obtain ⟨current,seen,before,within,loadedTail⟩ := sound
  have written := inv.freedLe.trans inv.order.length_le
  refine ⟨seen,before,within,loadedTail,?_⟩
  rw [current,loadedTail,and_bufferMask]
  simp only [bufferMask,defaultBufferSize] at *
  omega

theorem Inv.write_apart (inv : Inv s) {text : List Char} {head tail : Nat}
    (checked : s.writer = .checked text head tail) (room : (head + 1) &&& bufferMask ≠ tail) :
    s.published.length < s.freed + bufferMask ∧
      ∀ p, s.freed ≤ p → p < s.published.length → p % defaultBufferSize ≠ head := by
  obtain ⟨seen,before,within,-,full⟩ := inv.checked_full checked
  have free : s.published.length < s.freed + bufferMask :=
    (lt_of_le_of_ne within (mt full.mpr room)).trans_le (Nat.add_le_add_right before _)
  have sound := inv.writer
  rw [checked] at sound
  exact ⟨free,fun p after old => sound.1 ▸ slot_apart free after old⟩

theorem Inv.log (inv : Inv s) (step : Log s s') : Inv s' := by
  have apart := @Inv.write_apart _ inv
  obtain ⟨order,freedLe,pending,head,tail,slots,writer,flusher,logged⟩ := inv
  cases step with
  | loadHead text idle =>
    rw [idle] at writer logged
    exact ⟨order,freedLe,pending,head,tail,slots,head,flusher,logged⟩
  | loadTail text h loaded =>
    rw [loaded] at writer logged
    exact ⟨order,freedLe,pending,head,tail,slots,⟨writer,_,le_rfl,pending,tail⟩,flusher,logged⟩
  | drop text h t checked full =>
    rw [checked] at logged
    exact ⟨order,freedLe,pending,head,tail,slots,trivial,flusher,logged⟩
  | write text h t timestamp checked room =>
    obtain ⟨free,distinct⟩ := apart checked room
    rw [checked] at writer logged
    refine ⟨order,freedLe,pending,head,tail,fun p entry read found => ?_,
      ⟨writer.1,free,Function.update_same _ _ _⟩,flusher,logged⟩
    exact (Function.update_noteq (distinct p (freedLe.trans read) (List.getElem?_eq_some_iff.mp found).1) _ _).trans
      (slots p entry read found)
  | storeHead entry h written =>
    rw [written] at writer logged
    obtain ⟨current,room,slot⟩ := writer
    refine ⟨order.trans (List.prefix_append _ _),freedLe,
      by simpa only [List.length_append,List.length_singleton] using room,
      by simp only [List.length_append,List.length_singleton,and_bufferMask,current,Nat.mod_add_mod],tail,
      fun p e read found => ?_,by simp [Writer.Sound],flusher.published_le (by simp),
      by simpa only [List.length_append,List.length_singleton,Writer.uncounted,Nat.add_sub_cancel,Nat.sub_zero]
        using logged⟩
    dsimp only at read found ⊢
    rcases SpscSemaphoreQueue.getElem?_concat_cases found with ⟨_,found⟩ | ⟨rfl,rfl⟩
    · exact slots p e read found
    · rw [← current,slot]
  | count published =>
    rw [published] at writer logged
    refine ⟨order,freedLe,pending,head,tail,slots,trivial,flusher,?_⟩
    show s.messagesLogged + 1 = BitVec.ofNat 64 (s.published.length - 0)
    rw [logged,Nat.sub_zero]
    exact (BitVec.ofNat_add_ofNat _ 1).trans (by rw [Writer.uncounted,Nat.sub_add_cancel writer])

theorem Inv.flush (inv : Inv s) (step : Flush s s') : Inv s' := by
  obtain ⟨order,freedLe,pending,head,tail,slots,writer,flusher,logged⟩ := inv
  cases step with
  | loadTail idle =>
    rw [idle] at flusher
    exact ⟨order,freedLe,pending,head,tail,slots,writer,⟨flusher,tail⟩,logged⟩
  | loadHead t loaded =>
    rw [loaded] at flusher
    obtain ⟨caughtUp,loadedTail⟩ := flusher
    exact ⟨order,freedLe,pending,head,tail,slots,writer,
      ⟨caughtUp.symm ▸ loadedTail,_,order.length_le,le_rfl,head⟩,logged⟩
  | emit t h draining unequal =>
    rw [draining] at flusher
    obtain ⟨current,seen,after,before,loadedHead⟩ := flusher
    have behind : s.file.length < seen := after.lt_of_ne fun same => unequal (by rw [current,loadedHead,same])
    have more := behind.trans_le before
    have next := slots _ _ le_rfl (List.getElem?_eq_getElem more)
    have wrote : (s.file ++ [s.buffer t]).length = s.file.length + 1 := by simp
    refine ⟨SpscSemaphoreQueue.prefix_concat order (by rw [List.getElem?_eq_getElem more,current,next]),
      wrote ▸ freedLe.trans (Nat.le_succ _),pending,head,tail,
      fun p e read found => slots p e (by simp only [List.length_append,List.length_singleton] at read; omega) found,
      writer,⟨by rw [wrote,and_bufferMask,current,Nat.mod_add_mod],seen,wrote ▸ behind,before,loadedHead⟩,logged⟩
  | storeTail t done =>
    rw [done] at flusher
    obtain ⟨current,seen,after,before,loadedHead⟩ := flusher
    exact ⟨order,le_rfl,pending.trans (Nat.add_le_add_right freedLe _),head,current,slots,
      writer.freed_le freedLe,rfl,logged⟩

theorem Inv.step (inv : Inv s) : Step s s' → Inv s'
  | .log step => inv.log step
  | .flush step => inv.flush step

theorem inv_new : Inv new :=
  ⟨List.prefix_refl _,le_rfl,Nat.zero_le _,rfl,rfl,fun _ _ _ found => by simp [new] at found,trivial,rfl,rfl⟩

theorem Reachable.inv (reach : Reachable s) : Inv s := by
  induction reach with
  | new => exact inv_new
  | step _ step ih => exact ih.step step

/-- A whole `log` call with no step of the flush thread between its own. -/
def log (s : AsyncLogger) (timestamp : BitVec 64) (text : List Char) : AsyncLogger :=
  if (s.head + 1) &&& bufferMask = s.tail then { s with messagesDropped := s.messagesDropped + 1 }
  else { s with
    buffer := Function.update s.buffer s.head (LogEntry.make timestamp text)
    head := (s.head + 1) &&& bufferMask
    messagesLogged := s.messagesLogged + 1
    published := s.published ++ [LogEntry.make timestamp text] }

def logs (s : AsyncLogger) (calls : List (BitVec 64 × List Char)) : AsyncLogger :=
  calls.foldl (fun s call => s.log call.1 call.2) s

@[simp] theorem log_writer (timestamp : BitVec 64) (text : List Char) : (s.log timestamp text).writer = s.writer := by
  unfold log; split <;> rfl

@[simp] theorem log_flusher (timestamp : BitVec 64) (text : List Char) : (s.log timestamp text).flusher = s.flusher := by
  unfold log; split <;> rfl

theorem Run.log {made : List (List Char)} (run : Run made s) (idle : s.writer = .idle) (timestamp : BitVec 64)
    (text : List Char) : Run (made ++ [text]) (s.log timestamp text) := by
  obtain ⟨buffer,head,tail,logged,dropped,writer,flusher,file,published,freed⟩ := s
  subst idle
  have loaded := (run.step (.log (.loadHead _ text rfl))).step (.log (.loadTail _ text head rfl))
  unfold AsyncLogger.log
  by_cases full : (head + 1) &&& bufferMask = tail
  · rw [if_pos full]
    exact loaded.step (.log (.drop _ text head tail rfl full))
  · rw [if_neg full]
    exact (((loaded.step (.log (.write _ text head tail timestamp rfl full))).step
      (.log (.storeHead _ _ head rfl))).step (.log (.count _ rfl)))

theorem Run.logs {made : List (List Char)} (run : Run made s) (idle : s.writer = .idle) (calls : List (BitVec 64 × List Char)) :
    Run (made ++ calls.map Prod.snd) (s.logs calls) := by
  induction calls generalizing s made with
  | nil => simpa using run
  | cons call calls ih =>
    simpa [AsyncLogger.logs] using ih (run.log idle call.1 call.2) (by simpa using idle)

theorem logs_concat (calls : List (BitVec 64 × List Char)) (call : BitVec 64 × List Char) :
    s.logs (calls ++ [call]) = (s.logs calls).log call.1 call.2 := by
  simp [AsyncLogger.logs]

@[simp] theorem logs_writer (calls : List (BitVec 64 × List Char)) : (s.logs calls).writer = s.writer := by
  induction calls generalizing s with
  | nil => rfl
  | cons call calls ih => exact (ih (s := s.log call.1 call.2)).trans (log_writer _ _)

@[simp] theorem logs_flusher (calls : List (BitVec 64 × List Char)) : (s.logs calls).flusher = s.flusher := by
  induction calls generalizing s with
  | nil => rfl
  | cons call calls ih => exact (ih (s := s.log call.1 call.2)).trans (log_flusher _ _)

theorem logs_new (calls : List (BitVec 64 × List Char)) (fits : calls.length ≤ bufferMask) :
    (new.logs calls).head = calls.length ∧ (new.logs calls).tail = 0 ∧
      (new.logs calls).published = calls.map (fun call => LogEntry.make call.1 call.2) ∧
      (new.logs calls).messagesLogged = BitVec.ofNat 64 calls.length ∧ (new.logs calls).messagesDropped = 0 := by
  induction calls using List.reverseRecOn with
  | nil => exact ⟨rfl,rfl,rfl,rfl,rfl⟩
  | append_singleton calls call ih =>
    simp only [List.length_append,List.length_singleton] at fits
    obtain ⟨head,tail,published,logged,dropped⟩ := ih (by omega)
    have room : (new.logs calls).head + 1 &&& bufferMask = calls.length + 1 := by
      rw [head,and_bufferMask]
      exact Nat.mod_eq_of_lt (by simp only [bufferMask,defaultBufferSize] at fits ⊢; omega)
    rw [logs_concat,AsyncLogger.log,if_neg (by rw [room,tail]; exact Nat.succ_ne_zero _),List.length_append,
      List.length_singleton]
    refine ⟨room,tail,?_,?_,dropped⟩
    · show (new.logs calls).published ++ _ = _
      rw [published,List.map_append]
      rfl
    · show (new.logs calls).messagesLogged + 1 = _
      rw [logged]
      exact BitVec.ofNat_add_ofNat _ 1

/-- Over every interleaving of `log` calls and flushes: (a) the file holds the published entries
in the order of their `head_` stores, none twice and none skipped; (b) at most
`DEFAULT_BUFFER_SIZE - 1` published entries are not freed; (c) the slot a `log` call that found
room writes holds no entry that is not freed, so none the flush thread has still to read; (d)
the entry the flush thread writes next is the next published one. -/
theorem logger_safety (reach : Reachable s) :
    s.file <+: s.published ∧
    s.published.length ≤ s.freed + bufferMask ∧
    (∀ text head tail, s.writer = .checked text head tail → (head + 1) &&& bufferMask ≠ tail →
      ∀ p, s.freed ≤ p → p < s.published.length → p % defaultBufferSize ≠ head) ∧
    (∀ tail head, s.flusher = .draining tail head → tail ≠ head → s.published[s.file.length]? = some (s.buffer tail)) := by
  have inv := reach.inv
  refine ⟨inv.order,inv.pending,fun _ _ _ checked room => (inv.write_apart checked room).2,
    fun tail head draining unequal => ?_⟩
  have sound := inv.flusher
  rw [draining] at sound
  obtain ⟨current,seen,after,before,loadedHead⟩ := sound
  have more : s.file.length < s.published.length :=
    (after.lt_of_ne fun same => unequal (by rw [current,loadedHead,same])).trans_le before
  rw [List.getElem?_eq_getElem more,current,inv.slots _ _ le_rfl (List.getElem?_eq_getElem more)]

theorem logger_safety_mid_flush :
    let logged := new.logs [(1,['a']),(2,['b']),(3,['c'])]
    let draining : AsyncLogger := { { logged with flusher := .loaded logged.tail } with
      flusher := .draining logged.tail logged.head }
    let emitted : AsyncLogger := { draining with
      flusher := .draining ((logged.tail + 1) &&& bufferMask) logged.head
      file := draining.file ++ [draining.buffer logged.tail] }
    let s : AsyncLogger := { { emitted with writer := .loaded ['d'] emitted.head } with
      writer := .checked ['d'] emitted.head emitted.tail }
    Reachable s ∧ s.published.length = 3 ∧ s.file.length = 1 ∧
    (s.file <+: s.published ∧
    s.published.length ≤ s.freed + bufferMask ∧
    (∀ text head tail, s.writer = .checked text head tail → (head + 1) &&& bufferMask ≠ tail →
      ∀ p, s.freed ≤ p → p < s.published.length → p % defaultBufferSize ≠ head) ∧
    (∀ tail head, s.flusher = .draining tail head → tail ≠ head → s.published[s.file.length]? = some (s.buffer tail))) := by
  intro logged draining emitted s
  have run := Run.new.logs rfl [(1,['a']),(2,['b']),(3,['c'])]
  have reach : Reachable s :=
    ((((run.reachable.step (.flush (.loadTail _ (by simp [logged,new])))).step (.flush (.loadHead _ _ rfl))).step
      (.flush (.emit _ _ _ rfl (by decide)))).step (.log (.loadHead _ ['d'] (by simp [logged,new])))).step
      (.log (.loadTail _ _ _ rfl))
  exact ⟨reach,by decide,by decide,logger_safety reach⟩

/-- A `log` call drops its message exactly when, at its load of `tail_`, `DEFAULT_BUFFER_SIZE - 1`
published entries were not freed: the `tail_` it loaded stands for a freed count `seen`, and
the call drops exactly when `seen + BUFFER_MASK` entries are published. -/
theorem log_drops_only_when_full (reach : Reachable s) {text : List Char} {head tail : Nat}
    (checked : s.writer = .checked text head tail) :
    ∃ seen, seen ≤ s.freed ∧ tail = seen % defaultBufferSize ∧
      ((head + 1) &&& bufferMask = tail ↔ s.published.length = seen + bufferMask) := by
  obtain ⟨seen,before,-,loadedTail,full⟩ := reach.inv.checked_full checked
  exact ⟨seen,before,loadedTail,full⟩

theorem Reachable.loads (reach : Reachable s) (idle : s.writer = .idle) (text : List Char) :
    Reachable { { s with writer := .loaded text s.head } with writer := .checked text s.head s.tail } :=
  (reach.step (.log (.loadHead s text idle))).step (.log (.loadTail _ text s.head rfl))

theorem log_drops_only_when_full_at_full :
    let full := new.logs (List.replicate 4095 (0,['x']))
    let checked : AsyncLogger := { { full with writer := .loaded ['y'] full.head } with
      writer := .checked ['y'] full.head full.tail }
    Reachable checked ∧ checked.writer = .checked ['y'] full.head full.tail ∧ (full.head + 1) &&& bufferMask = full.tail ∧
    ∃ seen, seen ≤ checked.freed ∧ full.tail = seen % defaultBufferSize ∧
      ((full.head + 1) &&& bufferMask = full.tail ↔ checked.published.length = seen + bufferMask) := by
  intro full checked
  have filled : Reachable full := (Run.new.logs rfl _).reachable
  have reach : Reachable checked := filled.loads (logs_writer _) ['y']
  obtain ⟨head,tail,-⟩ := logs_new (List.replicate 4095 (0,['x'])) ((List.length_replicate _ _).trans_le (by decide))
  exact ⟨reach,rfl,by rw [head,tail,List.length_replicate]; decide,log_drops_only_when_full reach rfl⟩

/-- The counters and the published entries against the calls `made` of a run: each call that
has returned added 1 to one counter, and the published entries carry, in order, the texts of
some of the calls that got as far as the `head_` store. -/
structure Counted (made : List (List Char)) (s : AsyncLogger) : Prop where
  counters : s.messagesLogged + s.messagesDropped + BitVec.ofNat 64 s.writer.active = BitVec.ofNat 64 made.length
  messages : (s.published.map LogEntry.message).Sublist
    ((made.take (made.length - s.writer.pending)).map fun text => text.take (LogEntry.maxMessageSize - 1))
  current : s.writer.Current made

theorem Counted.log {made : List (List Char)} (counted : Counted made s) (step : Log s s') :
    Counted (s.writer.calls s'.writer made) s' := by
  obtain ⟨counters,messages,current⟩ := counted
  cases step with
  | loadHead text idle =>
    rw [idle] at counters messages ⊢
    show Counted (made ++ [text]) _
    refine ⟨?_,by simpa [Writer.pending] using messages,List.getLast?_concat _⟩
    show _ + _ + 1 = BitVec.ofNat 64 (made ++ [text]).length
    rw [List.length_append,List.length_singleton,← BitVec.ofNat_add_ofNat,← counters]
    exact congrArg (· + 1) (add_zero _).symm
  | loadTail text head loaded =>
    rw [loaded] at counters messages current ⊢
    exact ⟨counters,messages,current⟩
  | drop text head tail checked full =>
    rw [checked] at counters messages ⊢
    show Counted made { s with messagesDropped := s.messagesDropped + 1, writer := .idle }
    refine ⟨?_,messages.trans ?_,trivial⟩
    · show _ + (_ + 1) + 0 = _
      rw [← counters,add_zero,← add_assoc]
      rfl
    · show List.Sublist _ ((made.take (made.length - 0)).map _)
      rw [Nat.sub_zero,List.take_length]
      exact (List.take_sublist _ _).map _
  | write text head tail timestamp checked room =>
    rw [checked] at counters messages current ⊢
    exact ⟨counters,messages,text,current,rfl⟩
  | storeHead entry head written =>
    rw [written] at counters messages current ⊢
    obtain ⟨text,last,message⟩ := current
    refine ⟨counters,?_,trivial⟩
    show ((s.published ++ [entry]).map _).Sublist ((made.take (made.length - 0)).map _)
    rw [Nat.sub_zero,List.take_length,← List.dropLast_append_getLast? text last,List.map_append,List.map_append,
      List.map_singleton,List.map_singleton,message]
    exact (List.dropLast_eq_take made ▸ messages).append (List.Sublist.refl _)
  | count published =>
    rw [published] at counters messages ⊢
    show Counted made { s with messagesLogged := s.messagesLogged + 1, writer := .idle }
    refine ⟨?_,messages,trivial⟩
    show _ + 1 + _ + 0 = _
    rw [← counters,add_zero,add_right_comm]
    rfl

theorem Flush.writer (step : Flush s s') : s'.writer = s.writer := by
  cases step <;> rfl

theorem Run.counted {made : List (List Char)} (run : Run made s) : Counted made s := by
  induction run with
  | new => exact ⟨rfl,List.Sublist.slnil,trivial⟩
  | step _ step ih =>
    cases step with
    | log step => exact ih.log step
    | flush step =>
      rw [step.writer,Writer.calls_self]
      cases step <;> exact ⟨ih.1,ih.2,ih.3⟩

/-- Whenever no `log` call is under way, every call the run made has returned having added 1
to exactly one counter: `messages_logged() + messages_dropped()` is the number of calls,
modulo `2^64`. `messages_logged()` is the number of entries published, and these carry, in
order, the texts of some of the calls, cut to `MAX_MESSAGE_SIZE - 1` characters; the others
were dropped. -/
theorem log_counters {made : List (List Char)} (run : Run made s) (idle : s.writer = .idle) :
    s.messagesLogged + s.messagesDropped = BitVec.ofNat 64 made.length ∧
    s.messagesLogged = BitVec.ofNat 64 s.published.length ∧
    (s.published.map LogEntry.message).Sublist (made.map fun text => text.take (LogEntry.maxMessageSize - 1)) := by
  obtain ⟨counters,messages,-⟩ := run.counted
  have logged := run.reachable.inv.logged
  rw [idle] at counters messages logged
  exact ⟨by simpa [Writer.active] using counters,by simpa [Writer.uncounted] using logged,
    by simpa [Writer.pending] using messages⟩

theorem log_counters_after_full_buffer :
    let calls := List.replicate 4096 ((0 : BitVec 64),['x'])
    Run (calls.map Prod.snd) (new.logs calls) ∧ (new.logs calls).writer = .idle ∧
    ((new.logs calls).messagesLogged + (new.logs calls).messagesDropped = BitVec.ofNat 64 (calls.map Prod.snd).length ∧
      (new.logs calls).messagesLogged = BitVec.ofNat 64 (new.logs calls).published.length ∧
      ((new.logs calls).published.map LogEntry.message).Sublist
        ((calls.map Prod.snd).map fun text => text.take (LogEntry.maxMessageSize - 1))) ∧
    (new.logs calls).messagesDropped = 1 := by
  intro calls
  have run : Run (calls.map Prod.snd) (new.logs calls) := Run.new.logs rfl calls
  have idle : (new.logs calls).writer = .idle := logs_writer calls
  obtain ⟨head,tail,-,-,dropped⟩ := logs_new (List.replicate 4095 ((0 : BitVec 64),['x']))
    ((List.length_replicate _ _).trans_le (by decide))
  refine ⟨run,idle,log_counters run idle,?_⟩
  have last : calls = List.replicate 4095 ((0 : BitVec 64),['x']) ++ [((0 : BitVec 64),['x'])] :=
    List.replicate_succ' 4095 _
  rw [last,logs_concat,AsyncLogger.log,if_pos (by rw [head,tail,List.length_replicate]; decide)]
  show _ + 1 = 1
  rw [dropped]
  rfl

theorem Inv.drain (inv : Inv s) {tail : Nat} (draining : s.flusher = .draining tail s.head) :
    ∃ s', Relation.ReflTransGen Flush s s' ∧ s'.flusher = .idle ∧ s'.file = s.published ∧ s'.tail = s.head := by
  obtain ⟨n,h⟩ : ∃ n, s.published.length - s.file.length = n := ⟨_,rfl⟩
  induction n generalizing s tail with
  | zero =>
    have sound := inv.flusher
    rw [draining] at sound
    have caughtUp : s.file.length = s.published.length := by
      have := inv.order.length_le
      omega
    have same : tail = s.head := by rw [sound.1,inv.head,caughtUp]
    subst same
    exact ⟨_,.single (.storeTail s _ draining),rfl,inv.order.eq_of_length caughtUp,rfl⟩
  | succ n ih =>
    have sound := inv.flusher
    rw [draining] at sound
    have unequal : tail ≠ s.head := by
      rw [sound.1,inv.head]
      have := inv.pending
      have := inv.freedLe
      simp only [bufferMask,defaultBufferSize] at *
      omega
    have emit := Flush.emit s tail s.head draining unequal
    obtain ⟨s',run,idle,file,caughtUp⟩ := ih (inv.flush emit) rfl (by simp only [List.length_append,List.length_singleton]; omega)
    exact ⟨s',.head emit run,idle,file,caughtUp⟩

/-- From every state of every interleaving in which the flush thread is between calls, its own
steps run a whole `flush`, which ends with every entry published before it in the file and
`tail_` equal to `head_`. -/
theorem flush_writes_published (reach : Reachable s) (idle : s.flusher = .idle) :
    ∃ s', Relation.ReflTransGen Flush s s' ∧ s'.flusher = .idle ∧ s'.file = s.published ∧ s'.tail = s.head := by
  have loadTail := Flush.loadTail s idle
  have loadHead := Flush.loadHead { s with flusher := .loaded s.tail } s.tail rfl
  obtain ⟨s',run,done,file,caughtUp⟩ := ((reach.inv.flush loadTail).flush loadHead).drain rfl
  exact ⟨s',.head loadTail (.head loadHead run),done,file,caughtUp⟩

theorem flush_writes_published_after_logs :
    let logged := new.logs [(1,['a']),(2,['b']),(3,['c'])]
    Reachable logged ∧ logged.flusher = .idle ∧ logged.published.length = 3 ∧
    ∃ s', Relation.ReflTransGen Flush logged s' ∧ s'.flusher = .idle ∧ s'.file = logged.published ∧
      s'.tail = logged.head := by
  intro logged
  have reach : Reachable logged := (Run.new.logs rfl _).reachable
  have idle : logged.flusher = .idle := by simp [logged,new]
  exact ⟨reach,idle,by decide,flush_writes_published reach idle⟩

end AsyncLogger

end ExchangeSim
