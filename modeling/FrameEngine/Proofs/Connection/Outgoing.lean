import FrameEngine.Handler.Standard
import FrameEngine.Proofs.Connection.WriteJob

/-!
# FrameEngine.Proofs.Connection.Outgoing

Frames that are queued reach the stream whole, once and in order (`queued_frames_in_order`), as
long as nothing is sent past the queue.

The invariant is `Outgoing`: what was written is the first `n` frames that the queue took, which
are the ones counted, and a part of the next (`Output`); and where the write loop stands tells the
part, who has the lock, and what the queue still holds (`Place`). `outgoing_step` is the step, by
the cases of `step_cases`; `outgoing_steps` is the run. The loop that ends in the middle of a frame
has finished, and `ended_steps` says that nothing is written from there on.
-/

namespace FrameEngine

/-- Not at a frame, and not over. -/
def WriteLoop.isBetween : WriteLoop → Bool
  | .absent | .fresh | .paused _ | .receiving => true
  | .writing _ | .releasing | .finished => false

namespace Connection

variable {s : Setup} {c c' : Connection}

/-! ## What has been put out -/

/-- All that was written: the first `n` frames of those that the queue took, which are counted, and
a part that is not. -/
structure Output (s : Setup) (c : Connection) (n : Nat) (part : Octets) : Prop where
  packed : ∀ frame ∈ c.accepted, ∃ m, s.framing.pack m = .ok frame
  within : n ≤ c.accepted.length
  written : c.written = (c.accepted.take n).flatten ++ part
  messages : c.metrics.messagesSent = .ofNat n
  bytes : c.metrics.bytesSent = .ofNat (c.accepted.take n).flatten.length
  alone : ∀ ticket, NotSending c ticket

/-- The frames behind the first `n` are in the queue, if it still has its consumer. -/
def Awaits (c : Connection) (n : Nat) : Prop :=
  c.queue.hasConsumer = true → c.queue.waiting = c.accepted.drop n

/-- Nothing, or the beginning of the frame behind the first `n`. -/
def Begins (c : Connection) (n : Nat) (part : Octets) : Prop :=
  part = [] ∨ ∃ frame, c.accepted[n]? = some frame ∧ part <+: frame

/-- Where the write loop is, and how much of the next frame it has written. -/
inductive Place (c : Connection) (n : Nat) : Octets → Prop where
  /-- Before the first frame or between two. -/
  | between (idle : c.writer.isBetween = true) (begun : c.writer = .absent ∨ c.started = true)
      (lock : c.writeLock = .free) (next : Awaits c n) : Place c n []
  | inside {job : WriteJob} (started : c.started = true) (writer : c.writer = .writing job)
      (lock : c.writeLock = ⟨[.loop]⟩) (way : job.UnderWay)
      (frame : c.accepted[n]? = some job.frame) (next : Awaits c (n + 1)) :
      Place c n (job.frame.take job.written)
  | ended {part : Octets} (started : c.started = true) (writer : c.writer = .finished)
      (rest : Begins c n part) : Place c n part

structure Outgoing (s : Setup) (c : Connection) (n : Nat) (part : Octets) : Prop where
  output : Output s c n part
  place : Place c n part

theorem outgoing_new (s : Setup) : Outgoing s (new s) 0 [] :=
  ⟨⟨nofun, Nat.le_refl _, rfl, rfl, rfl, nofun⟩, .between rfl (.inl rfl) rfl fun _ => rfl⟩

/-! ## What is quiet -/

theorem Output.quiet {n : Nat} {part : Octets} (h : Output s c n part) (hq : Quiet s c c') :
    Output s c' n part := by
  obtain ⟨more, ha, hp, _⟩ := hq.accepts
  have htake : c'.accepted.take n = c.accepted.take n := by
    rw [ha, List.take_append_of_le_length h.within]
  refine ⟨fun frame hf => ?_, ?_, ?_, ?_, ?_, fun ticket => hq.notSending (h.alone ticket)⟩
  · rw [ha] at hf
    rcases List.mem_append.1 hf with hf | hf
    · exact h.packed frame hf
    · exact hp frame hf
  · rw [ha, List.length_append]
    exact Nat.le_add_right_of_le h.within
  · rw [hq.written, h.written, htake]
  · rw [hq.messages, h.messages]
  · rw [hq.bytes, h.bytes, htake]

theorem Awaits.quiet {n : Nat} (h : Awaits c n) (hn : n ≤ c.accepted.length) (hq : Quiet s c c') :
    Awaits c' n := by
  obtain ⟨more, ha, _, hw⟩ := hq.accepts
  intro hc
  obtain ⟨hc, hw⟩ := hw hc
  rw [hw, h hc, ha, List.drop_append_of_le_length hn]

theorem getElem?_accepted_quiet {n : Nat} {frame : Octets} (h : c.accepted[n]? = some frame)
    (hq : Quiet s c c') : c'.accepted[n]? = some frame := by
  obtain ⟨more, ha, _⟩ := hq.accepts
  rw [ha, List.getElem?_append_left (List.getElem?_eq_some_iff.1 h).1, h]

theorem Begins.quiet {n : Nat} {part : Octets} (h : Begins c n part) (hq : Quiet s c c') :
    Begins c' n part := by
  rcases h with h | ⟨frame, hf, hpart⟩
  · exact .inl h
  · exact .inr ⟨frame, getElem?_accepted_quiet hf hq, hpart⟩

theorem Outgoing.quiet {n : Nat} {part : Octets} (h : Outgoing s c n part) (hq : Quiet s c c') :
    Outgoing s c' n part := by
  refine ⟨h.output.quiet hq, ?_⟩
  cases h.place with
  | between idle begun lock next =>
    refine .between ?_ ?_ (hq.lock.trans lock) (next.quiet h.output.within hq)
    · rw [hq.writer]; exact idle
    · rw [hq.writer, hq.started]; exact begun
  | inside started writer lock way frame next =>
    have hlt : n < c.accepted.length := (List.getElem?_eq_some_iff.1 frame).1
    exact .inside (hq.started.trans started) (hq.writer.trans writer) (hq.lock.trans lock) way
      (getElem?_accepted_quiet frame hq) (next.quiet hlt hq)
  | ended started writer rest =>
    exact .ended (hq.started.trans started) (hq.writer.trans writer) (rest.quiet hq)

/-- What has been put out does not depend on where the write loop is. -/
theorem Output.of_outlet {n : Nat} {part : Octets} (h : Output s c n part) {w : WriteLoop}
    {started : Bool} {lock : Lock} {half : Keeping} {queue : SendQueue}
    (ho : c'.outlet = { c.outlet with writer := w, started, lock, half, queue }) :
    Output s c' n part := by
  obtain ⟨_, _, _, _, hd, _, hh, hm, hb⟩ := Outlet.mk.inj ho
  have ha : c'.accepted = c.accepted := accepted_congr hh
  have hw : c'.written = c.written := written_congr hh
  refine ⟨?_, ?_, ?_, hm.trans h.messages, ?_, fun ticket job hj => h.alone ticket job ?_⟩
  · rw [ha]; exact h.packed
  · rw [ha]; exact h.within
  · rw [hw, ha]; exact h.written
  · rw [ha]; exact hb.trans h.bytes
  · rw [hd] at hj; exact hj

theorem Awaits.of_outlet {n : Nat} (h : Awaits c n) {w : WriteLoop} {started : Bool} {lock : Lock}
    {half : Keeping} (ho : c'.outlet = { c.outlet with writer := w, started, lock, half }) :
    Awaits c' n := by
  obtain ⟨_, _, _, _, _, hq, hh, _, _⟩ := Outlet.mk.inj ho
  intro hc
  rw [hq] at hc ⊢
  rw [accepted_congr hh]
  exact h hc

/-! ## The write loop -/

section

variable {n : Nat} {part : Octets}

theorem outgoing_writerRound (ho : Output s c n []) (hs : c.started = true)
    (hl : c.writeLock = .free) (hn : Awaits c n) : Outgoing s c.writerRound n [] := by
  obtain ⟨taken, limiter, h⟩ := tryAcquire_eq c
  rw [writerRound, h]
  cases taken with
  | true => exact ⟨ho.of_outlet rfl, .between rfl (.inr hs) hl hn⟩
  | false => exact ⟨ho.of_outlet rfl, .between rfl (.inr hs) hl hn⟩

/-- The loop ends where it is. -/
theorem outgoing_exitWriter (ho : Output s c n part) (hs : c.started = true)
    (hl : c.writeLock = .free) (rest : Begins c n part) : Outgoing s (c.exitWriter s) n part := by
  have hheld : (c.writeLock.request .loop).isHeldBy .loop = true := by rw [hl]; rfl
  have hfree : (c.writeLock.request .loop).release = .free := by rw [hl]; rfl
  have hgone : Quiet s c { c with writeHalf := .gone, writeLock := .free } := by
    have hsame : Quiet s c c := .refl c
    exact ⟨rfl, rfl, hl.symm, .inr ⟨rfl, hl⟩, hsame.sending, rfl, rfl, rfl, hsame.accepts⟩
  have hclosed := hgone.trans (quiet_close _)
  simp only [exitWriter, hheld, if_true, dropWriteHalf, hfree]
  have hrest := rest.quiet hclosed
  exact ⟨(ho.quiet hclosed).of_outlet rfl, .ended (hclosed.started.trans hs) rfl hrest⟩

theorem outgoing_afterWrite_error (ho : Output s c n part) (hs : c.started = true)
    (hl : c.writeLock = ⟨[.loop]⟩) (rest : Begins c n part) (e : EngineError) :
    Outgoing s (c.afterWrite s (.ends (.error e))) n part := by
  have ho' : Output s { c with writeLock := c.writeLock.release } n part := ho.of_outlet rfl
  have hreport := quiet_reportExit (s := s) { c with writeLock := c.writeLock.release } e
  have hfree : c.writeLock.release = .free := by rw [hl]; rfl
  have rest' : Begins { c with writeLock := c.writeLock.release } n part := rest
  exact outgoing_exitWriter (ho'.quiet hreport) (hreport.started.trans hs)
    (hreport.lock.trans hfree) (rest'.quiet hreport)

theorem flatten_take_succ {frame : Octets} (hf : c.accepted[n]? = some frame) :
    (c.accepted.take (n + 1)).flatten = (c.accepted.take n).flatten ++ frame := by
  rw [List.take_add_one, hf, List.flatten_append]
  simp

/-- A frame that has been written wholly is counted. -/
theorem output_completeWrite {job : WriteJob} (ho : Output s c n job.frame)
    (hf : c.accepted[n]? = some job.frame) : Output s (c.completeWrite job) (n + 1) [] := by
  have hlt : n < c.accepted.length := (List.getElem?_eq_some_iff.1 hf).1
  have htake := flatten_take_succ hf
  refine ⟨ho.packed, hlt, ?_, ?_, ?_, ho.alone⟩
  · rw [List.append_nil]
    exact ho.written.trans htake.symm
  · show c.metrics.messagesSent + 1 = _
    rw [ho.messages, UInt64.ofNat_add]; rfl
  · show c.metrics.bytesSent + .ofNat job.frame.length = _
    have ha : (c.completeWrite job).accepted = c.accepted := rfl
    rw [ho.bytes, ha, htake, List.length_append, UInt64.ofNat_add]

theorem outgoing_afterWrite {job : WriteJob} {c₁ : Connection} {p : WriteProgress}
    (ho : Output s c n (job.frame.take job.written)) (hs : c.started = true)
    (hl : c.writeLock = ⟨[.loop]⟩) (hf : c.accepted[n]? = some job.frame) (hn : Awaits c (n + 1))
    (ht : WriteTurn s c job c₁ p) : ∃ n' part', Outgoing s (c₁.afterWrite s p) n' part' := by
  have hlt : n < c.accepted.length := (List.getElem?_eq_some_iff.1 hf).1
  cases ht with
  | @waits _ job' rest way frame place =>
    have ho' := ho.quiet rest
    rw [← frame, ← place] at ho'
    have hf' := getElem?_accepted_quiet hf rest
    have hn' := hn.quiet hlt rest
    rw [← frame] at hf'
    exact ⟨n, _, ho'.of_outlet rfl,
      .inside (rest.started.trans hs) rfl (rest.lock.trans hl) way hf' hn'⟩
  | @writes k job' way frame place =>
    have hpart : job'.frame.take job'.written =
        job.frame.take job.written ++ (job.frame.drop job.written).take k := by
      rw [frame, place, List.take_add]
    have ha : (c.note (.wrote ((job.frame.drop job.written).take k))).accepted = c.accepted := by
      rw [accepted_note]; exact List.append_nil _
    have ho' : Output s (c.note (.wrote ((job.frame.drop job.written).take k))) n
        (job'.frame.take job'.written) := by
      refine ⟨?_, ?_, ?_, ho.messages, ?_, ho.alone⟩
      · rw [ha]; exact ho.packed
      · rw [ha]; exact ho.within
      · rw [written_note, ha, ho.written, hpart, List.append_assoc]; rfl
      · rw [ha]; exact ho.bytes
    refine ⟨n, _, ho'.of_outlet rfl, .inside hs rfl hl way ?_ fun hc => ?_⟩
    · rw [frame]; exact (congrArg (·[n]?) ha).trans hf
    · exact (hn hc).trans (congrArg (List.drop (n + 1)) ha).symm
  | @fails c₁ e rest =>
    refine ⟨n, _, outgoing_afterWrite_error (ho.quiet rest) (rest.started.trans hs)
      (rest.lock.trans hl) (.inr ⟨job.frame, getElem?_accepted_quiet hf rest, ?_⟩) e⟩
    exact List.take_prefix _ _
  | completes whole =>
    rw [whole, List.take_length] at ho
    have hfree : c.writeLock.release = .free := by rw [hl]; rfl
    have ho' := output_completeWrite ho hf
    exact ⟨n + 1, [], outgoing_writerRound (ho'.of_outlet rfl) hs hfree hn⟩

theorem pop_eq_frame {q q' : SendQueue} {frame : Octets} (h : q.pop = (.frame frame, q')) :
    q.hasConsumer = true ∧ q.waiting = frame :: q'.waiting := by
  unfold SendQueue.pop at h
  split at h
  · rename_i hc
    split at h
    · rename_i f rest hw
      cases h
      exact ⟨hc, hw⟩
    · split at h <;> cases h
  · cases h

/-- The next frame of the queue begins to be written, or is lost with the write half. -/
theorem outgoing_take {frame : Octets} {queue : SendQueue} (ho : Output s c n [])
    (hs : c.started = true) (hl : c.writeLock = .free) (hn : Awaits c n)
    (hq : c.queue.pop = (.frame frame, queue)) {c₁ : Connection} {p : WriteProgress}
    (hr : { c with queue }.requestWrite s .loop frame = (c₁, p)) :
    ∃ n' part', Outgoing s (c₁.afterWrite s p) n' part' := by
  obtain ⟨hc, hw⟩ := pop_eq_frame hq
  rw [hn hc] at hw
  have hf : c.accepted[n]? = some frame := by
    rw [← List.head?_drop, hw]; rfl
  have hnext : c.accepted.drop (n + 1) = queue.waiting := by
    rw [← List.tail_drop, hw]; rfl
  have hheld : (c.writeLock.request .loop).isHeldBy .loop = true := by rw [hl]; rfl
  have hline : c.writeLock.request .loop = ⟨[.loop]⟩ := by rw [hl]; rfl
  simp only [requestWrite, hheld, if_true] at hr
  obtain ⟨rfl, rfl⟩ := Prod.mk.inj hr
  have ho' : Output s { c with queue, writeLock := c.writeLock.request .loop } n [] :=
    ho.of_outlet rfl
  unfold takeTurn
  split
  · obtain ⟨hway, hplace, hframe⟩ := underWay_nextWrite (s := s)
      { c with queue, writeLock := c.writeLock.request .loop }
      { writeJob s { c with queue, writeLock := c.writeLock.request .loop } frame with
        since := c.wall } (Nat.zero_le _)
    generalize nextWrite s _ _ 0 = job at hway hplace hframe ⊢
    have hpart : job.frame.take job.written = [] := by rw [hplace]; rfl
    have hf' : c.accepted[n]? = some job.frame := by rw [hframe]; exact hf
    refine ⟨n, job.frame.take job.written, ?_, .inside hs rfl hline hway hf' fun _ => hnext.symm⟩
    rw [hpart]
    exact ho'.of_outlet rfl
  · exact ⟨n, [], outgoing_afterWrite_error ho' hs hline (.inl rfl) _⟩

/-- A loop between two frames has nothing under way, and the lock is free. -/
theorem outgoing_stepWriter_between {w : Wake} (ho : Output s c n [])
    (idle : c.writer.isBetween = true) (hs : c.started = true) (hl : c.writeLock = .free)
    (hn : Awaits c n) (hw : c.stepWriter s w = some c') : ∃ n' part', Outgoing s c' n' part' := by
  cases writerStep_of hw with
  | begins fresh kept =>
    have ho' : Output s { c with consumer := .taken } n [] := ho.of_outlet rfl
    exact ⟨n, [], outgoing_writerRound ho' hs hl hn⟩
  | lacks fresh apart =>
    have hclose := quiet_close (s := s) c
    exact ⟨n, [], (ho.quiet hclose).of_outlet rfl, .ended (hclose.started.trans hs) rfl (.inl rfl)⟩
  | stops waits closed => exact ⟨n, [], outgoing_exitWriter ho hs hl (.inl rfl)⟩
  | resumes paused due => exact ⟨n, [], outgoing_writerRound ho hs hl hn⟩
  | takes receiving live popped => exact outgoing_take ho hs hl hn popped rfl
  | ends receiving live none => exact ⟨n, [], outgoing_exitWriter ho hs hl (.inl rfl)⟩
  | goes writing write => rw [writing] at idle; cases idle
  | releases releasing held => rw [releasing] at idle; cases idle

theorem outgoing_stepWriter {w : Wake} (h : Outgoing s c n part)
    (hw : c.stepWriter s w = some c') : ∃ n' part', Outgoing s c' n' part' := by
  cases h.place with
  | between idle begun lock next =>
    rcases begun with habsent | hs
    · exact absurd habsent (writer_ne_absent hw)
    · exact outgoing_stepWriter_between h.output idle hs lock next hw
  | inside hs writer lock way frame next =>
    cases writerStep_of hw with
    | goes writing write =>
      cases writer.symm.trans writing
      exact outgoing_afterWrite h.output hs lock frame next (stepWrite_cases way write)
    | stops waits => rcases waits with other | ⟨_, other⟩ <;> cases writer.symm.trans other
    | begins other | lacks other | resumes other | takes other | ends other | releases other =>
      cases writer.symm.trans other
  | ended _ writer _ => exact absurd writer (writer_ne_finished hw)

end

/-! ## Runs -/

end Connection

/-- A label that sends nothing past the queue. -/
def Label.Queues (s : Setup) : Label → Prop
  | .sendFrame frame => ∃ m, s.framing.pack m = .ok frame
  | .sendDirect _ => False
  | _ => True

namespace Connection

variable {s : Setup} {c c' : Connection} {n : Nat} {part : Octets}

theorem turn_of_queues {l : Label} (ho : Output s c n part) (hl : l.Queues s)
    (h : c.step s l = some c') :
    Quiet s c c' ∨
      (c.started = false ∧ ∃ c₁, Quiet s { c with started := true } c₁ ∧
        c'.outlet = { c₁.outlet with writer := .fresh }) ∨
      ∃ w, c.stepWriter s w = some c' := by
  have hp : l.Packed s := by cases l <;> first | exact hl | trivial
  cases step_cases h hp with
  | quiet rest => exact .inl rest
  | begins fresh told looped => exact .inr (.inl ⟨fresh, _, told, looped⟩)
  | loops went => exact .inr (.inr ⟨_, went⟩)
  | sends frame => exact hl.elim
  | drives sending _ => exact absurd sending (ho.alone _ _)

theorem outgoing_step {l : Label} (ho : Outgoing s c n part) (hl : l.Queues s)
    (h : c.step s l = some c') : ∃ n' part', Outgoing s c' n' part' := by
  rcases turn_of_queues ho.output hl h with hq | ⟨hfresh, c₁, htold, hlooped⟩ | ⟨w, hw⟩
  · exact ⟨n, part, ho.quiet hq⟩
  · have hoc : Output s { c with started := true } n part := ho.output.of_outlet rfl
    have ho₁ := (hoc.quiet htold).of_outlet hlooped
    cases ho.place with
    | between idle begun lock next =>
      have hnext : Awaits { c with started := true } n := next
      refine ⟨n, [], ho₁, .between ?_ (.inr ?_) ?_ ?_⟩
      · exact congrArg WriteLoop.isBetween (congrArg Outlet.writer hlooped)
      · exact (congrArg Outlet.started hlooped).trans htold.started
      · exact (congrArg Outlet.lock hlooped).trans (htold.lock.trans lock)
      · exact (hnext.quiet hoc.within htold).of_outlet hlooped
    | inside started _ _ _ _ _ => cases hfresh.symm.trans started
    | ended started _ _ => cases hfresh.symm.trans started
  · exact outgoing_stepWriter ho hw

theorem outgoing_steps {ls : List Label} (run : Steps s c ls c') (hls : ∀ l ∈ ls, l.Queues s) :
    ∀ {n : Nat} {part : Octets}, Outgoing s c n part → ∃ n' part', Outgoing s c' n' part' := by
  induction run with
  | nil c => exact fun ho => ⟨_, _, ho⟩
  | cons first _ ih =>
    intro n part ho
    obtain ⟨n', part', ho'⟩ := outgoing_step ho (hls _ List.mem_cons_self) first
    exact ih (fun l hl => hls l (List.mem_cons_of_mem _ hl)) ho'

/-- Nothing is written once the loop is over. -/
theorem ended_step {l : Label} (ho : Outgoing s c n part) (hw : c.writer = .finished)
    (hl : l.Queues s) (h : c.step s l = some c') :
    c'.writer = .finished ∧ c'.written = c.written := by
  rcases turn_of_queues ho.output hl h with hq | ⟨hfresh, _⟩ | ⟨w, hturn⟩
  · exact ⟨hq.writer.trans hw, hq.written⟩
  · cases ho.place with
    | between idle _ _ _ => rw [hw] at idle; cases idle
    | inside started _ _ _ _ _ => cases hfresh.symm.trans started
    | ended started _ _ => cases hfresh.symm.trans started
  · exact absurd hw (writer_ne_finished hturn)

theorem ended_steps {ls : List Label} (run : Steps s c ls c') (hls : ∀ l ∈ ls, l.Queues s) :
    ∀ {n : Nat} {part : Octets}, Outgoing s c n part → c.writer = .finished →
      c'.written = c.written := by
  induction run with
  | nil c => exact fun _ _ => rfl
  | cons first _ ih =>
    intro n part ho hw
    have hl := hls _ List.mem_cons_self
    obtain ⟨n', part', ho'⟩ := outgoing_step ho hl first
    obtain ⟨hw', hwritten⟩ := ended_step ho hw hl first
    exact (ih (fun l hl => hls l (List.mem_cons_of_mem _ hl)) ho' hw').trans hwritten

theorem Place.begins (h : Place c n part) : Begins c n part := by
  cases h with
  | between _ _ _ _ => exact .inl rfl
  | inside _ _ _ _ frame _ => exact .inr ⟨_, frame, List.take_prefix _ _⟩
  | ended _ _ rest => exact rest

/-- A part of a frame that is the whole of it is a frame. -/
theorem whole_or_part (hn : n ≤ c.accepted.length) (h : Begins c n part) :
    ∃ k rest, n ≤ k ∧ k ≤ n + 1 ∧ k ≤ c.accepted.length ∧
      (c.accepted.take n).flatten ++ part = (c.accepted.take k).flatten ++ rest ∧
      (rest = [] ∨ rest = part ∧ ∃ frame, c.accepted[k]? = some frame ∧ rest <+: frame ∧
        rest ≠ frame) := by
  rcases h with rfl | ⟨frame, hf, hpart⟩
  · exact ⟨n, [], Nat.le_refl n, Nat.le_succ n, hn, rfl, .inl rfl⟩
  · by_cases hw : part = frame
    · have hlt : n < c.accepted.length := (List.getElem?_eq_some_iff.1 hf).1
      refine ⟨n + 1, [], Nat.le_succ n, Nat.le_refl _, hlt, ?_, .inl rfl⟩
      rw [flatten_take_succ hf, hw, List.append_nil]
    · exact ⟨n, part, Nat.le_refl n, Nat.le_succ n, hn, rfl, .inr ⟨rfl, frame, hf, hpart, hw⟩⟩

/-- A message that is accepted adds its frame to those that the queue has taken. -/
theorem accepted_send {m : Message} (h : c.send s m = .ok c') :
    ∃ frame, s.framing.pack m = .ok frame ∧ c'.accepted = c.accepted ++ [frame] := by
  obtain ⟨frame, queue, hp, _, rfl⟩ := send_eq_ok h
  refine ⟨frame, hp, ?_⟩
  rw [accepted_note]; rfl

/-- What goes out by the queue alone. The frames are those that messages were packed in; they are
written whole, once, in the order in which the queue took them, and at most one is written in part.
All that are written are counted, the last one perhaps not yet. A frame that is left in part is the
last thing written. -/
theorem queued_frames_in_order {ls : List Label} (run : Steps s (new s) ls c)
    (hls : ∀ l ∈ ls, l.Queues s) :
    (∀ m c', c.send s m = .ok c' →
      ∃ frame, s.framing.pack m = .ok frame ∧ c'.accepted = c.accepted ++ [frame]) ∧
    (∀ frame ∈ c.accepted, ∃ m, s.framing.pack m = .ok frame) ∧
    ∃ k n part, k ≤ c.accepted.length ∧ n ≤ k ∧ k ≤ n + 1 ∧
      c.written = (c.accepted.take k).flatten ++ part ∧
      (part = [] ∨ ∃ frame, c.accepted[k]? = some frame ∧ part <+: frame ∧ part ≠ frame) ∧
      c.metrics.messagesSent = .ofNat n ∧
      c.metrics.bytesSent = .ofNat (c.accepted.take n).flatten.length ∧
      (part ≠ [] → (∀ job, c.writer ≠ .writing job) →
        ∀ ls' c', Steps s c ls' c' → (∀ l ∈ ls', l.Queues s) → c'.written = c.written) := by
  obtain ⟨n, part, ho⟩ := outgoing_steps run hls (outgoing_new s)
  obtain ⟨k, rest, hnk, hkn, hk, hwritten, hrest⟩ :=
    whole_or_part ho.output.within ho.place.begins
  refine ⟨fun _ _ => accepted_send, ho.output.packed, k, n, rest, hk, hnk, hkn,
    ho.output.written.trans hwritten, hrest.imp_right And.right, ho.output.messages,
    ho.output.bytes, ?_⟩
  intro hne hjob ls' c' run' hls'
  have hpart : part ≠ [] := by
    rcases hrest with hrest | ⟨hrest, _⟩
    · exact absurd hrest hne
    · rw [← hrest]; exact hne
  have hover : c.writer = .finished := by
    cases ho.place with
    | between _ _ _ _ => exact absurd rfl hpart
    | inside _ writer _ _ _ _ => exact absurd writer (hjob _)
    | ended _ writer _ => exact writer
  exact ended_steps run' hls' ho hover

/-- The connection after a list of labels, if each is possible when it comes. -/
def follow (s : Setup) : Connection → List Label → Option Connection
  | c, [] => some c
  | c, l :: ls => (c.step s l).bind fun c => follow s c ls

theorem steps_of_follow {ls : List Label} (h : follow s c ls = some c') : Steps s c ls c' := by
  induction ls generalizing c with
  | nil => cases h; exact .nil _
  | cons l ls ih =>
    obtain ⟨c₁, first, rest⟩ := Option.bind_eq_some_iff.1 h
    exact .cons first (ih rest)

/-- Two messages are queued, the first is written, and the second fails after three octets. -/
theorem queued_frames_in_order_of_broken_pipe :
    let s : Setup :=
      { id := 1, peer := none, localAddress := none, framing := .field 64,
        settings := { ConnectionSettings.standard with rateLimit := .zero false },
        handler := .quiet, chance := fun _ delay => delay }
    let ls : List Label :=
      [.start .writeOnly, .send (.field ⟨1, 1, [7]⟩), .send (.field ⟨1, 2, []⟩),
        .wake .writer .go, .wake .writer .go, .wake .writer (.write (.ok 5)),
        .wake .writer (.write (.ok 12)), .wake .writer (.flush (.ok ())), .wake .writer .go,
        .wake .writer (.write (.ok 3)), .wake .writer (.write (.error (.ofKind .brokenPipe)))]
    ∃ c, Steps s (new s) ls c ∧ (∀ l ∈ ls, l.Queues s) ∧
      c.written = [0, 0, 0, 17, 0, 0, 0, 1, 0, 0, 0, 1, 0, 0, 0, 1, 7, 0, 0, 0] ∧
      c.metrics.messagesSent = 1 ∧
      ∀ ls' c', Steps s c ls' c' → (∀ l ∈ ls', l.Queues s) → c'.written = c.written := by
  intro s ls
  have hseen : (follow s (new s) ls).map (fun c => (c.written, c.accepted, c.writer,
      c.metrics.messagesSent)) =
      some ([0, 0, 0, 17, 0, 0, 0, 1, 0, 0, 0, 1, 0, 0, 0, 1, 7, 0, 0, 0],
        [[0, 0, 0, 17, 0, 0, 0, 1, 0, 0, 0, 1, 0, 0, 0, 1, 7],
          [0, 0, 0, 16, 0, 0, 0, 1, 0, 0, 0, 2, 0, 0, 0, 0]], .finished, 1) := by
    decide +kernel
  obtain ⟨c, hrun, hc⟩ := Option.map_eq_some_iff.1 hseen
  obtain ⟨hw, ha, hwriter, hm⟩ : c.written = _ ∧ c.accepted = _ ∧ c.writer = _ ∧ _ = _ := by
    simpa only [Prod.mk.injEq] using hc
  have hls : ∀ l ∈ ls, l.Queues s := by
    simp [ls, Label.Queues]
  have hsteps := steps_of_follow hrun
  obtain ⟨_, _, k, n, part, hk, _, _, hwritten, _, _, _, hover⟩ :=
    queued_frames_in_order hsteps hls
  have hpart : part ≠ [] := by
    rintro rfl
    have hlen := congrArg List.length hwritten
    rw [hw, ha, List.append_nil] at hlen
    rw [ha] at hk
    match k, hk with
    | 0, _ => cases hlen
    | 1, _ => cases hlen
    | 2, _ => cases hlen
  exact ⟨c, hsteps, hls, hw, hm, hover hpart (by rw [hwriter]; nofun)⟩

end Connection
end FrameEngine
