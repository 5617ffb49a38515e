import FrameEngine.Proofs.Connection.Passage

/-!
# FrameEngine.Proofs.Connection.Loops

The functions of the loops, as passages. What a function may report of a connection that is closed
already is a hypothesis of its lemma: a failure of the stream that may pass, or more octets than one
frame can hold.
-/

namespace FrameEngine

/-- An error with which a read or a write can end that has waited for the stream in vain, silence
apart. -/
def EngineError.isStream : EngineError → Bool
  | .connectionClosed | .writeTimeout | .io _ | .retriesExhausted _ _ => true
  | _ => false

theorem EngineError.own_of_stream {e : EngineError} (h : e.isStream = true) : e.own = none := by
  cases e <;> first | rfl | cases h

namespace Connection

variable {s : Setup} {c c' c₁ : Connection} {late : EngineError → Prop} {counted : Bool}

/-! ## Reports and retries -/

/-- A message is counted and delivered. -/
theorem passes_deliver {m : Message} (live : c.isClosed = false) (hc : c.started = true)
    (before : Hears c c₁ []) (hcount : ∀ t, t.isHeard = true → c₁.metrics.count t =
      c.metrics.count t + if t.counts (.message m) = true then 1 else 0) :
    Passes s late counted c (c₁.deliver s m) := by
  have hstage : c.stage = .live := isClosed_eq_false.1 live
  have hstage₁ : c₁.stage = .live := before.turning.eq_of_nil.trans hstage
  obtain ⟨calls, h⟩ : ∃ calls, Passage s late counted (c₁.told (.message m)) (c₁.deliver s m)
    calls := passage_of_called hstage₁ (called_deliver c₁ m)
  refine ⟨_, .of_heard before h (fun {calls q} hq => ?_) hcount⟩
  have hphase : c₁.phase = c.phase := by rw [phase, phase, hstage, hstage₁, before.started]
  rw [hphase, phase, hstage, hc] at hq
  rw [phase, hstage, hc, hstage₁]
  exact .delivers hq

theorem passes_reportExit {e : EngineError} (hs : c.stage ≠ .closing)
    (plain : e ≠ .idleTimeout → e.own = none) : Passes s late counted c (c.reportExit s e) := by
  unfold reportExit
  split
  · exact .refl c
  · rename_i hlive
    have hlate : c.isClosed = true → late e := fun hc => absurd hc hlive
    split
    · rename_i hidle
      subst hidle
      split
      · exact .refl c
      · have hsilenced : Hears c { c with silenced := true } [] :=
          .of_history rfl rfl rfl rfl rfl rfl rfl
        refine passes_report_of ((hsilenced.trans (.record _ .idleTimeout)).trans (.log _ _ _ _)) hs
          hlate fun t ht => ?_
        show (c.metrics.record .idleTimeout).count t = _
        rw [Metrics.count_record _ ht]
        simp only [EngineError.own, Option.some.injEq, eq_comm]
    · exact passes_report hs (plain ‹_›) hlate

theorem passes_retryAfter {f : IoFailure} {b : Backoff} (hs : c.stage ≠ .closing)
    (hlate : late (.io f)) : Passes s late counted c (c.retryAfter s f b).1 := by
  unfold retryAfter
  split
  · exact .refl c
  · have hdraws : Passes s late counted c { c with draws := c.draws + 1 } := .of_aspect rfl
    have hrecord := hdraws.trans (.record _ (t := .retry) rfl) hs
    exact (hrecord.trans (.log _ _ _ _ hs) hs).trans (passes_report hs rfl fun _ => hlate) hs

/-! ## Reading -/

theorem passes_stepRead {job : ReadJob} {w : Wake} {p : ReadProgress} (hs : c.stage ≠ .closing)
    (hlate : ∀ f, w = .read (.error f) → f.isTransient = true → late (.io f))
    (h : c.stepRead s job w = some (c', p)) : Passes s late counted c c' := by
  cases readStep_of h with
  | gets point fits fed =>
    have htouch : Passes s late counted c c.touch := .of_aspect rfl
    exact htouch.trans (.record _ rfl) hs
  | retries point passes granted => exact passes_retryAfter hs (hlate _ rfl passes)
  | _ => exact .refl c

theorem stream_of_stepRead {job : ReadJob} {w : Wake} {e : EngineError}
    (h : c.stepRead s job w = some (c', .fails e)) (he : e ≠ .idleTimeout) : e.isStream = true := by
  cases readStep_of h with
  | expires point due silent => exact absurd rfl he
  | _ => rfl

theorem stepRead_data {job : ReadJob} {w : Wake} {d : Octets} {b : Backoff}
    (h : c.stepRead s job w = some (c', .data d b)) :
    w = .read (.ok d) ∧ c' = c.touch.record (.bytesRead d.length) := by
  cases readStep_of h with
  | gets point fits fed => exact ⟨rfl, rfl⟩

theorem own_of_unpack {f : Framing} {buf : Octets} {failure : UnpackFailure}
    (h : f.unpack buf = .error failure) : failure.error.own = none := by
  cases Framing.failure_of_unpack h with
  | short | undersized _ | oversized _ _ | misplaced _ _ _ => rfl
  | @damaged n e _ _ damage => cases e <;> first | rfl | cases damage

theorem count_received (c : Connection) (m : Message) {t : Tally} (ht : t.isHeard = true) :
    ((c.touch.record .messageReceived).record (.messageLatency 0)).metrics.count t =
      c.metrics.count t + if t.counts (.message m) = true then 1 else 0 := by
  show ((c.metrics.record .messageReceived).record (.messageLatency 0)).count t = _
  rw [Metrics.count_record _ ht, Metrics.count_record _ ht]
  cases t <;> cases ht <;> simp [Tally.counts]

/-- A drain of a connection that is closed does nothing, and it stops when a callback closes. -/
theorem passes_drain (hs : c.stage ≠ .closing) (hc : c.started = true) (b : Accumulator) :
    Passes s late counted c (c.drain s b).1 := by
  fun_induction drain s c b with
  | case1 c b _ => exact .refl c
  | case2 c b hopen m n _ e he =>
    have live : c.isClosed = false := by simp_all
    refine passes_report hs ?_ fun h => absurd h (Bool.eq_false_iff.1 live)
    unfold Accumulator.consume at he
    split at he <;> cases he
    rfl
  | case3 c b hopen m n _ rest _ _ c' ih =>
    have live : c.isClosed = false := by simp_all
    have hbefore : Hears c ((c.touch.record .messageReceived).record (.messageLatency 0)) [] := by
      have htouch : Hears c c.touch [] := .of_history rfl rfl rfl rfl rfl rfl rfl
      exact (htouch.trans (.record _ .messageReceived)).trans (.record _ (.messageLatency 0))
    have hdeliver : Passes s late counted c (c'.deliver s m) :=
      passes_deliver live hc hbefore fun t ht => count_received c m ht
    exact hdeliver.trans (ih (hdeliver.settled hs) (hdeliver.started hc)) hs
  | case4 c b _ failure _ _ => exact .refl c
  | case5 c b hopen failure h _ _ dropped c' ih =>
    have live : c.isClosed = false := by simp_all
    have hreport : Passes s late counted c (c'.report s failure.error) :=
      (Passes.log c _ _ _ hs).trans (passes_report hs (own_of_unpack h) fun h =>
        absurd h (Bool.eq_false_iff.1 live)) hs
    exact hreport.trans (ih (hreport.settled hs) (hreport.started hc)) hs

theorem passes_boundBuffer (hs : c.stage ≠ .closing) (b : Accumulator)
    (hlate : s.framing.maxFrameLength < b.length →
      late (.bufferOverflow b.length s.framing.maxFrameLength)) :
    Passes s late counted c (c.boundBuffer s b).1 := by
  unfold boundBuffer
  split
  · rename_i hlong
    refine passes_report_of (.record c .bufferOverflow) hs (fun _ => hlate hlong) fun t ht => ?_
    show (c.metrics.record .bufferOverflow).count t = _
    rw [Metrics.count_record _ ht]
    simp only [EngineError.own, Option.some.injEq, eq_comm]
  · exact .refl c

theorem passes_exitReader (hs : c.stage ≠ .closing) (hc : c.started = true) :
    Passes s late counted c (c.exitReader s) := by
  have hgone : Passes s late counted c { c with readHalf := .gone } := .of_aspect rfl
  have hclose := hgone.trans (passes_close hs) hs
  exact hclose.trans (.of_reader (hclose.started hc) rfl) hs

theorem passes_readerRound (hs : c.stage ≠ .closing) (hc : c.started = true) (buffer : Accumulator)
    (b : Backoff) : Passes s late counted c (c.readerRound s buffer b) := by
  unfold readerRound
  split
  · exact passes_exitReader hs hc
  · obtain ⟨taken, limiter, h⟩ := tryAcquire_eq c
    rw [h]
    cases taken <;> exact .of_reader hc rfl

theorem passes_takeReadHalf (hs : c.stage ≠ .closing) (hc : c.started = true) :
    Passes s late counted c (c.takeReadHalf s) := by
  unfold takeReadHalf
  dsimp only
  split
  · have htaken : Passes s late counted c
        { c with readLock := c.readLock.release, readHalf := .taken } := .of_aspect rfl
    exact htaken.trans (passes_readerRound (htaken.settled hs) (htaken.started hc) _ _) hs
  · have hrelease : Passes s late counted c { c with readLock := c.readLock.release } :=
      .of_aspect rfl
    have hclose := hrelease.trans (passes_close hs) hs
    exact hclose.trans (.of_reader (hclose.started hc) rfl) hs

/-- What the read loop holds when it has drained octets that the stream gives it. -/
def leftover (s : Setup) (c : Connection) (d : Octets) : Accumulator :=
  match c.reader with
  | .reading _ buffer => ((c.touch.record (.bytesRead d.length)).drain s (buffer.append d)).2
  | _ => .empty

/-- Once the connection is closed, the read loop reports a failure that may pass and octets that
are too many for one frame, and nothing else. -/
theorem passes_stepReader {w : Wake} (hs : c.stage ≠ .closing) (hc : c.started = true)
    (hfail : ∀ f, w = .read (.error f) → f.isTransient = true → late (.io f))
    (hlong : ∀ d, w = .read (.ok d) → s.framing.maxFrameLength < (c.leftover s d).length →
      late (.bufferOverflow (c.leftover s d).length s.framing.maxFrameLength))
    (h : c.stepReader s w = some c') : Passes s late counted c c' := by
  cases readerStep_of h with
  | begins fresh held =>
    have hrequest : Passes s late counted c { c with readLock := c.readLock.request .loop } :=
      .of_aspect rfl
    exact hrequest.trans (passes_takeReadHalf hs hc) hs
  | queues fresh => exact .of_reader hc rfl
  | enters locking held => exact passes_takeReadHalf hs hc
  | stops paused closed => exact passes_exitReader hs hc
  | resumes paused due => exact passes_readerRound hs hc _ _
  | goes reading read =>
    have hread : Passes s late counted c _ := passes_stepRead hs hfail read
    exact hread.trans (.of_reader (hread.started hc) rfl) hs
  | fails reading read =>
    have hread : Passes s late counted c _ := passes_stepRead hs hfail read
    have hexit := hread.trans
      (passes_reportExit (hread.settled hs) fun he =>
        EngineError.own_of_stream (stream_of_stepRead read he)) hs
    exact hexit.trans (passes_exitReader (hexit.settled hs) (hexit.started hc)) hs
  | @hears _ job buffer c₁ d b reading read =>
    obtain ⟨hw, hc₁⟩ := stepRead_data read
    have hleft : c.leftover s d = (c₁.drain s (buffer.append d)).2 := by
      rw [leftover, reading, hc₁]
    have hread : Passes s late counted c c₁ := passes_stepRead hs hfail read
    have hdrain := hread.trans (passes_drain (hread.settled hs) (hread.started hc)
      (buffer.append d)) hs
    have hlong' := hlong d hw
    rw [hleft] at hlong'
    generalize c₁.drain s (buffer.append d) = r at hdrain hlong' ⊢
    obtain ⟨c₂, left⟩ := r
    have hbound := hdrain.trans (passes_boundBuffer (hdrain.settled hs) left hlong') hs
    exact hbound.trans (passes_readerRound (hbound.settled hs) (hbound.started hc) _ _) hs

/-! ## Watching and writing -/

theorem passes_stepIdler {w : Wake} (hs : c.stage ≠ .closing) (h : c.stepIdler s w = some c') :
    Passes s late counted c c' := by
  cases idlerStep_of h with
  | begins fresh => exact .of_aspect rfl
  | stops ticking closed => exact (passes_close hs).trans (.of_aspect rfl) hs
  | expires ticking now silent =>
    have hexit : Passes s late counted c (c.reportExit s .idleTimeout) :=
      passes_reportExit hs fun hne => absurd rfl hne
    have hclose := hexit.trans (passes_close (hexit.settled hs)) hs
    exact hclose.trans (.of_aspect rfl) hs
  | looks ticking now active => exact .of_aspect rfl

section

variable {o : Owner} {job : WriteJob} {w : Wake} {p : WriteProgress}
  (h : c.stepWrite s o job w = some (c', p))
include h

theorem passes_stepWrite (hs : c.stage ≠ .closing)
    (hfail : ∀ f, w = .write (.error f) → f.isTransient = true → late (.io f))
    (htimer : w = .timer → late (.io (.ofKind .timedOut))) : Passes s late counted c c' := by
  cases writeStep_of h with
  | @retries _ n f e resume backoff fails granted =>
    have hlate : late (.io f) := by
      cases fails with
      | late point due => exact htimer rfl
      | breaks point passes => exact hfail _ rfl passes
    exact passes_retryAfter hs hlate
  | writes point fits takes => exact .of_hears (.note c rfl rfl) hs rfl
  | completes point =>
    have htouch : Passes s late counted c c.touch := .of_aspect rfl
    exact (htouch.trans (.record _ (t := .messageSent job.frame.length) rfl) hs).trans
      (.record _ rfl) hs
  | _ => exact .refl c

theorem stream_of_stepWrite {e : EngineError} (hp : p = .ends (.error e)) : e.isStream = true := by
  cases writeStep_of h with
  | enters point held =>
    unfold takeTurn at hp
    split at hp <;> cases hp
    rfl
  | exhausts fails spent => cases fails <;> cases hp <;> rfl
  | _ => cases hp <;> rfl

end

theorem passes_dropWriteHalf (hs : c.stage ≠ .closing) :
    Passes s late counted c (c.dropWriteHalf s) := by
  have hgone : Passes s late counted c
      { c with writeHalf := .gone, writeLock := c.writeLock.release } := .of_aspect rfl
  exact (hgone.trans (passes_close hs) hs).trans (.of_aspect rfl) hs

theorem passes_exitWriter (hs : c.stage ≠ .closing) : Passes s late counted c (c.exitWriter s) := by
  have hrequest : Passes s late counted c { c with writeLock := c.writeLock.request .loop } :=
    .of_aspect rfl
  unfold exitWriter
  dsimp only
  split
  · exact hrequest.trans (passes_dropWriteHalf (hrequest.settled hs)) hs
  · exact .of_aspect rfl

theorem passes_writerRound : Passes s late counted c c.writerRound := by
  obtain ⟨taken, limiter, h⟩ := tryAcquire_eq c
  unfold writerRound
  rw [h]
  cases taken <;> exact .of_aspect rfl

theorem passes_afterWrite {p : WriteProgress} (hs : c.stage ≠ .closing)
    (hp : ∀ e, p = .ends (.error e) → e.isStream = true) :
    Passes s late counted c (c.afterWrite s p) := by
  unfold afterWrite
  split
  · exact .of_aspect rfl
  · have hrelease : Passes s late counted c { c with writeLock := c.writeLock.release } :=
      .of_aspect rfl
    dsimp only
    split
    · exact hrelease.trans passes_writerRound hs
    · have hexit := hrelease.trans
        (passes_reportExit (hrelease.settled hs) fun _ => EngineError.own_of_stream (hp _ rfl)) hs
      exact hexit.trans (passes_exitWriter (hexit.settled hs)) hs

/-- A job that has no lock yet changes nothing that a passage is about. -/
theorem requestWrite_eq (c : Connection) (o : Owner) (frame : Octets) :
    (c.requestWrite s o frame).1.aspect = c.aspect ∧
      ∀ e, (c.requestWrite s o frame).2 = .ends (.error e) → e.isStream = true := by
  unfold requestWrite takeTurn
  dsimp only
  split
  · refine ⟨rfl, fun e he => ?_⟩
    split at he <;> cases he
    rfl
  · exact ⟨rfl, nofun⟩

/-- Once the connection is closed, the write loop reports a failure that may pass, and nothing
else. -/
theorem passes_stepWriter {w : Wake} (hs : c.stage ≠ .closing)
    (hfail : ∀ f, w = .write (.error f) → f.isTransient = true → late (.io f))
    (htimer : w = .timer → late (.io (.ofKind .timedOut)))
    (h : c.stepWriter s w = some c') : Passes s late counted c c' := by
  cases writerStep_of h with
  | begins fresh kept =>
    have htaken : Passes s late counted c { c with consumer := .taken } := .of_aspect rfl
    exact htaken.trans passes_writerRound hs
  | lacks fresh apart => exact (passes_close hs).trans (.of_aspect rfl) hs
  | stops waits closed => exact passes_exitWriter hs
  | resumes paused due => exact passes_writerRound
  | @takes frame queue receiving live popped =>
    have hqueue : Passes s late counted c { c with queue } := .of_aspect rfl
    obtain ⟨ha, hstream⟩ := requestWrite_eq (s := s) { c with queue } .loop frame
    have hrequest := hqueue.trans (.of_aspect ha) hs
    exact hrequest.trans (passes_afterWrite (hrequest.settled hs) hstream) hs
  | ends receiving live none => exact passes_exitWriter hs
  | goes writing write =>
    have hwrite : Passes s late counted c _ := passes_stepWrite write hs hfail htimer
    exact hwrite.trans
      (passes_afterWrite (hwrite.settled hs) fun e he => stream_of_stepWrite write he) hs
  | releases releasing held => exact passes_dropWriteHalf hs

end Connection
end FrameEngine
