import FrameEngine.Proofs.Connection.Changes
import FrameEngine.Proofs.Connection.Delivery
import FrameEngine.Proofs.Connection.Outgoing
import FrameEngine.Proofs.Connection.Parts

/-!
# FrameEngine.Proofs.Connection.Buffer

How much the read loop holds. Wherever it waits, its buffer is within the longest frame, since more
than that is dropped (`bounded_step`); so a read fills it by no more than one read brings.

The handler is told when that happens, by one function only: which calls these are is read off the
marks of a step (`overflows_step`).

Dropping is the exception. A drain that is not cut short leaves what waits for more octets, which is
less than a frame (`leftover_lt_of_open`). So if the limit leaves room for a header, octets are
dropped only because they were not drained, on a connection that was closed
(`buffer_stays_bounded`). No callback need have closed it: a read that its owner's `close` comes
before is enough (`overflow_of_read_after_close`).
-/

namespace FrameEngine

namespace Framing

/-- What waits for more octets is less than a frame, if a frame has room for a header. -/
theorem lt_maxFrameLength_of_short {f : Framing} {buf : Octets} (hroom : f.HoldsHeader)
    (h : f.unpack buf = .error .short) : buf.length < f.maxFrameLength := by
  rcases lt_of_short h with hlt | ⟨n, hn, hlt⟩
  · exact Nat.lt_of_lt_of_le hlt hroom
  · exact Nat.lt_of_lt_of_le hlt (le_maxFrameLength hn)

end Framing

/-- The call that is marked for telling of an overflow. -/
def Mark.overflow? : Mark → Option Call
  | .retry => none
  | .overflow call => some call

namespace Connection

variable {s : Setup} {c c' : Connection} {ms : List Mark}

/-! ## What a drain leaves -/

theorem length_drain_le (c : Connection) (b : Accumulator) :
    (c.drain s b).2.length ≤ b.length := by
  fun_induction drain s c b with
  | case1 c b _ => exact Nat.le_refl _
  | case2 c b _ m n _ e he => exact Nat.zero_le _
  | case3 c b _ m n _ rest _ hlt c' ih => exact Nat.le_trans ih (Nat.le_of_lt hlt)
  | case4 c b _ failure _ _ => exact Nat.le_refl _
  | case5 c b _ failure h _ hlt dropped c' ih => exact Nat.le_trans ih (Nat.le_of_lt hlt)

/-- A drain that leaves the connection open was not cut short. -/
theorem drain_lt_of_open (hroom : s.framing.HoldsHeader) {b : Accumulator}
    (hopen : (c.drain s b).1.isClosed = false) :
    (c.drain s b).2.length < s.framing.maxFrameLength := by
  obtain ⟨held⟩ := b
  have hrun := Codec.decodes_drain s.framing held
  obtain ⟨-, hleft⟩ := drain_of_decodes hrun c hopen
  rw [hleft]
  exact Framing.lt_maxFrameLength_of_short hroom (left_of_decodes hrun).1

theorem boundBuffer_le (c : Connection) (b : Accumulator) :
    (c.boundBuffer s b).2.length ≤ s.framing.maxFrameLength := by
  unfold boundBuffer
  split
  · exact Nat.zero_le _
  · exact Nat.not_lt.1 ‹_›

/-! ## The buffer of the read loop -/

/-- Wherever the read loop waits, what it holds is within the longest frame. -/
def Bounded (s : Setup) (c : Connection) : Prop :=
  ∀ buffer, c.reader.buffer? = some buffer → buffer.length ≤ s.framing.maxFrameLength

theorem bounded_of_none (h : c.reader.buffer? = none) : Bounded s c := by
  intro buffer hb
  rw [h] at hb
  cases hb

theorem bounded_of_some {buffer : Octets} (h : c.reader.buffer? = some buffer)
    (hle : buffer.length ≤ s.framing.maxFrameLength) : Bounded s c := by
  intro buffer' hb
  rw [h] at hb
  cases hb
  exact hle

theorem bounded_readerRound {buffer : Accumulator}
    (hle : buffer.length ≤ s.framing.maxFrameLength) (b : Backoff) :
    Bounded s (c.readerRound s buffer b) := by
  unfold readerRound
  split
  · exact bounded_of_none rfl
  · obtain ⟨taken, limiter, h⟩ := tryAcquire_eq c
    rw [h]
    cases taken with
    | true => exact bounded_of_some rfl hle
    | false => exact bounded_of_some rfl hle

theorem bounded_takeReadHalf (c : Connection) : Bounded s (c.takeReadHalf s) := by
  unfold takeReadHalf
  dsimp only
  split
  · exact bounded_readerRound (Nat.zero_le _) _
  · exact bounded_of_none rfl

theorem bounded_stepReader {w : Wake} (hb : Bounded s c) (h : c.stepReader s w = some c') :
    Bounded s c' := by
  cases readerStep_of h with
  | begins fresh held => exact bounded_takeReadHalf _
  | queues fresh => exact bounded_of_none rfl
  | enters locking held => exact bounded_takeReadHalf c
  | stops paused closed => exact bounded_of_none rfl
  | @resumes resume buffer b paused due =>
    exact bounded_readerRound (hb buffer.held (by rw [paused]; rfl)) b
  | @goes _ _ _ buffer _ reading read =>
    exact bounded_of_some rfl (hb buffer.held (by rw [reading]; rfl))
  | fails reading read => exact bounded_of_none rfl
  | hears reading read => exact bounded_readerRound (boundBuffer_le _ _) _

theorem bounded_step {l : Label} (hb : Bounded s c) (h : c.step s l = some c') : Bounded s c' := by
  by_cases hl : ∃ w, l = .wake .reader w
  · obtain ⟨w, rfl⟩ := hl
    exact bounded_stepReader hb h
  · rcases reader_step h fun w hw => hl ⟨w, hw⟩ with hsame | ⟨-, hfresh | habsent⟩
    · intro buffer hbuffer
      exact hb buffer (hsame ▸ hbuffer)
    · exact bounded_of_none (by rw [hfresh]; rfl)
    · exact bounded_of_none (by rw [habsent]; rfl)

theorem bounded_steps {ls : List Label} (run : Steps s c ls c') (hb : Bounded s c) :
    Bounded s c' := by
  induction run with
  | nil c => exact hb
  | cons first _ ih => exact ih (bounded_step hb first)

/-! ## What the handler is told -/

/-- The calls that told the handler of an overflow, in order. -/
def overflows (c : Connection) : List Call := c.callbacks.filter fun call => call.callback.isOverflow

theorem overflows_note (c : Connection) {o : Occurrence} (ho : Moment.call? ⟨c.now, o⟩ = none) :
    (c.note o).overflows = c.overflows := by
  rw [overflows, callbacks_note, ho]
  exact congrArg _ (List.append_nil _)

theorem overflows_told (c : Connection) (cb : Callback) :
    (c.told cb).overflows = c.overflows ++ (Call.marks ⟨cb, c.stage⟩).filterMap Mark.overflow? := by
  rw [overflows, overflows, callbacks_told, List.filter_append, Call.marks]
  cases h : cb.isOverflow <;> simp [h, Mark.overflow?]

/-- Closing and callbacks do not tell of an overflow. -/
theorem overflows_of_effect (h : Effect s c c') : c'.overflows = c.overflows := by
  cases h with
  | @note o remark => cases o <;> first | exact overflows_note c rfl | cases remark
  | queue packed pushed => exact overflows_note { c with queue := _ } rfl
  | tellClose => exact (overflows_told c .close).trans (List.append_nil _)
  | _ => rfl

theorem overflows_of_change (h : Change s c ms c') :
    c'.overflows = c.overflows ++ ms.filterMap Mark.overflow? := by
  cases h with
  | effect h => exact (overflows_of_effect h).trans (List.append_nil _).symm
  | tell cb => exact overflows_told c cb
  | count t => cases t <;> exact (List.append_nil _).symm
  | write data => exact (overflows_note c rfl).trans (List.append_nil _).symm
  | push pushed => exact (overflows_note { c with queue := _ } rfl).trans (List.append_nil _).symm
  | settle same =>
    rw [overflows, callbacks_congr (congrArg Core.history same)]
    exact (List.append_nil _).symm
  | _ => exact (List.append_nil _).symm

/-- The calls that tell of an overflow are those that are marked. -/
theorem overflows_of_changes (h : Changes s c ms c') :
    c'.overflows = c.overflows ++ ms.filterMap Mark.overflow? := by
  induction h with
  | refl => exact (List.append_nil _).symm
  | tail _ last ih => rw [overflows_of_change last, ih, List.filterMap_append, List.append_assoc]

theorem filterMap_marks (c : Connection) (l : Label) :
    (c.marks s l).filterMap Mark.overflow? = c.spilt s l := by
  have hretries : (Backoff.marks (c.asks l)).filterMap Mark.overflow? = [] :=
    List.filterMap_replicate_of_none rfl
  rw [marks, List.filterMap_append, hretries, List.filterMap_map]
  exact List.filterMap_some

/-- The handler is told of an overflow by the read loop, when it has drained what it read. -/
theorem overflows_step {l : Label} (h : c.step s l = some c') :
    c'.overflows = c.overflows ++ c.spilt s l := by
  rw [overflows_of_changes (changes_step h), filterMap_marks]

/-! ## Runs -/

/-- A run in which each drain comes to its end: it finds the connection open, and no callback closes
the connection before the drain is over. -/
inductive DrainsOpen (s : Setup) : Connection → List Label → Connection → Prop where
  | nil (c : Connection) : DrainsOpen s c [] c
  | cons {a b c : Connection} {l : Label} {ls : List Label} (first : a.step s l = some b)
      (whole : ∀ d ∈ l.loopReads, (a.drainedBy s d).isClosed = false)
      (rest : DrainsOpen s b ls c) : DrainsOpen s a (l :: ls) c

theorem leftover_lt_of_open (hroom : s.framing.HoldsHeader) {d : Octets}
    (hopen : (c.drainedBy s d).isClosed = false) :
    (c.leftover s d).length < s.framing.maxFrameLength := by
  unfold drainedBy at hopen
  unfold leftover
  split
  · rename_i hr
    rw [hr] at hopen
    exact drain_lt_of_open hroom hopen
  · exact Nat.lt_of_lt_of_le (Nat.succ_pos _) hroom

theorem spilt_of_open (hroom : s.framing.HoldsHeader) {l : Label}
    (whole : ∀ d ∈ l.loopReads, (c.drainedBy s d).isClosed = false) : c.spilt s l = [] := by
  refine List.flatMap_eq_nil_iff.2 fun d hd => ?_
  exact if_neg (Nat.not_lt.2 (Nat.le_of_lt (leftover_lt_of_open hroom (whole d hd))))

theorem overflows_of_drainsOpen (hroom : s.framing.HoldsHeader) {ls : List Label}
    (h : DrainsOpen s c ls c') : c'.overflows = c.overflows := by
  induction h with
  | nil c => rfl
  | cons first whole _ ih =>
    rw [ih, overflows_step first, spilt_of_open hroom whole, List.append_nil]

/-- An overflow is told of a connection that has been closed. -/
theorem stage_of_spilt (hroom : s.framing.HoldsHeader) {l : Label} {call : Call}
    (h : call ∈ c.spilt s l) : call.stage ≠ .live := by
  obtain ⟨d, -, hcall⟩ := List.mem_flatMap.1 h
  split at hcall
  · rename_i hlong
    rw [List.mem_singleton.1 hcall]
    intro hlive
    have hlt := leftover_lt_of_open hroom (isClosed_eq_false.2 hlive)
    omega
  · cases hcall

theorem stage_of_overflow (hroom : s.framing.HoldsHeader) {ls : List Label}
    (run : Steps s c ls c') (hc : ∀ call ∈ c.overflows, call.stage ≠ .live) :
    ∀ call ∈ c'.overflows, call.stage ≠ .live := by
  induction run with
  | nil c => exact hc
  | cons first _ ih =>
    refine ih fun call hcall => ?_
    rw [overflows_step first] at hcall
    rcases List.mem_append.1 hcall with hbefore | hnow
    · exact hc call hbefore
    · exact stage_of_spilt hroom hnow

theorem length_leftover_le {buffer : Octets} (hb : c.reader.buffer? = some buffer) (d : Octets) :
    (c.leftover s d).length ≤ (buffer ++ d).length := by
  unfold leftover
  split
  · rename_i hr
    rw [hr] at hb
    cases hb
    exact length_drain_le _ _
  · exact Nat.zero_le _

/-- A step closes a connection that a drain has closed. -/
theorem isClosed_of_drainedBy {l : Label} (h : c.step s l = some c') {d : Octets}
    (hd : d ∈ l.loopReads) (hclosed : (c.drainedBy s d).isClosed = true) : c'.isClosed = true := by
  obtain ⟨d', rfl, hne⟩ := exists_read_of_loopReads (List.ne_nil_of_mem hd)
  rw [loopReads_read hne] at hd
  cases List.mem_singleton.1 hd
  obtain ⟨-, b, rfl⟩ := stepReader_read hne h
  have hbound := (still_boundBuffer (s := s) (c.drainedBy s d) (c.leftover s d)).closed hclosed
  rw [readerRound, if_pos hbound]
  exact isClosed_exitReader _

theorem overflows_new (s : Setup) : (new s).overflows = [] := rfl

/-- In a run that leaves the connection open, all drains have come to their end. -/
theorem drainsOpen_of_open {ls : List Label} (run : Steps s c ls c') (hk : Kept c)
    (hopen : c'.isClosed = false) : DrainsOpen s c ls c' := by
  induction run with
  | nil c => exact .nil c
  | @cons a b c l ls first rest ih =>
    have hkept := (advances_step false hk nofun nofun first).kept
    refine .cons first (fun d hd => ?_) (ih hkept hopen)
    cases hclosed : (a.drainedBy s d).isClosed with
    | false => rfl
    | true =>
      have hb := isClosed_of_drainedBy first hd hclosed
      exact (isClosed_steps hkept rest hb).symm.trans hopen

/-- Wherever the read loop waits, it holds no more than the longest frame; with a read on top of
that it holds the most it ever does, and a drain never leaves more than it finds. If the limit is not
below 64, a drain that comes to its end leaves less than the longest frame. The handler is then told
of an overflow after the end of the connection at most, and never if all drains come to their end:
if no callback closes the connection during a drain, and nothing is read once it is closed. -/
theorem buffer_stays_bounded {ls : List Label} (run : Steps s (new s) ls c) :
    (∀ buffer, c.reader.buffer? = some buffer → buffer.length ≤ s.framing.maxFrameLength ∧
      ∀ d c', c.step s (.wake .reader (.read (.ok d))) = some c' →
        (buffer ++ d).length ≤ s.framing.maxFrameLength + max s.settings.readBufferSize 1 ∧
          (c.leftover s d).length ≤ (buffer ++ d).length) ∧
    (64 ≤ s.framing.maxMessageSize →
      (∀ d, (c.drainedBy s d).isClosed = false →
        (c.leftover s d).length < s.framing.maxFrameLength) ∧
      (∀ call ∈ c.overflows, call.stage ≠ .live) ∧
      (DrainsOpen s (new s) ls c → c.overflows = [])) := by
  have hbounded : Bounded s c := bounded_steps run (bounded_of_none rfl)
  constructor
  · intro buffer hbuffer
    have hle := hbounded buffer hbuffer
    refine ⟨hle, fun d c' hstep => ⟨?_, length_leftover_le hbuffer d⟩⟩
    have hread : d.length ≤ max s.settings.readBufferSize 1 := by
      by_cases hd : d = []
      · simp [hd]
      · exact (stepReader_read hd hstep).1
    rw [List.length_append]
    omega
  · intro hmax
    have hroom : s.framing.HoldsHeader := Framing.holdsHeader_of_limit hmax
    refine ⟨fun d => leftover_lt_of_open hroom, stage_of_overflow hroom run ?_,
      overflows_of_drainsOpen hroom⟩
    rw [overflows_new]
    exact List.forall_mem_nil _

/-- Two reads bring a frame and all but the last octet of a frame that is as long as the limit. -/
theorem buffer_stays_bounded_of_long_frame :
    let s : Setup :=
      { id := 1, peer := none, localAddress := none, framing := .field 64,
        settings :=
          { ConnectionSettings.standard with rateLimit := .zero false, readBufferSize := 48 },
        handler := .quiet, chance := fun _ delay => delay }
    let first : Octets := [0, 0, 0, 16, 0, 0, 0, 1, 0, 0, 0, 1, 0, 0, 0, 0] ++
      ([0, 0, 0, 64, 0, 0, 0, 1, 0, 0, 0, 2, 0, 0, 0, 48] ++ List.replicate 16 7)
    let ls : List Label := [.start .readWrite, .wake .reader .go, .wake .writer .go,
      .wake .reader (.read (.ok first)), .wake .reader (.read (.ok (List.replicate 31 7)))]
    ∃ c buffer, Steps s (new s) ls c ∧ 64 ≤ s.framing.maxMessageSize ∧
      DrainsOpen s (new s) ls c ∧ c.reader.buffer? = some buffer ∧ buffer.length = 63 ∧
      buffer.length ≤ s.framing.maxFrameLength ∧ c.overflows = [] := by
  intro s first ls
  have hseen : (follow s (new s) ls).map (fun c =>
      (c.isClosed, c.reader.buffer?.map List.length)) = some (false, some 63) := by
    decide +kernel
  obtain ⟨c, hrun, hc⟩ := Option.map_eq_some_iff.1 hseen
  obtain ⟨hopen, hheld⟩ := Prod.mk.inj hc
  obtain ⟨buffer, hbuffer, hlength⟩ := Option.map_eq_some_iff.1 hheld
  have hsteps : Steps s (new s) ls c := steps_of_follow hrun
  have hdrains : DrainsOpen s (new s) ls c := drainsOpen_of_open hsteps (kept_new s) hopen
  have hmax : 64 ≤ s.framing.maxMessageSize := by decide
  obtain ⟨hbounded, hquiet⟩ := buffer_stays_bounded hsteps
  exact ⟨c, buffer, hsteps, hmax, hdrains, hbuffer, hlength, (hbounded buffer hbuffer).1,
    (hquiet hmax).2.2 hdrains⟩

/-- The connection is closed by its owner while the read loop waits, and the stream has 65 zeros for
it at that moment. No callback has closed anything, and no drain ever looks at them. -/
theorem overflow_of_read_after_close :
    let s : Setup :=
      { id := 1, peer := none, localAddress := none, framing := .field 64,
        settings := { ConnectionSettings.standard with rateLimit := .zero false },
        handler := .quiet, chance := fun _ delay => delay }
    let ls : List Label := [.start .readWrite, .wake .reader .go, .wake .writer .go, .close,
      .wake .reader (.read (.ok (List.replicate 65 0)))]
    ∃ c, Steps s (new s) ls c ∧ 64 ≤ s.framing.maxMessageSize ∧
      (∀ caller cb, (s.handler.react caller cb).KeepsOpen) ∧
      c.overflows.map (fun call => (call.callback.name, call.stage)) = [("on_error", .closed)] ∧
      c.metrics.bufferOverflows = 1 := by
  intro s ls
  have hseen : (follow s (new s) ls).map (fun c =>
      (c.overflows.map (fun call => (call.callback.name, call.stage)),
        c.metrics.bufferOverflows)) = some ([("on_error", .closed)], 1) := by
    decide +kernel
  obtain ⟨c, hrun, hc⟩ := Option.map_eq_some_iff.1 hseen
  obtain ⟨htold, hcount⟩ := Prod.mk.inj hc
  exact ⟨c, steps_of_follow hrun, by decide, keepsOpen_quiet, htold, hcount⟩

end Connection
end FrameEngine
