import FrameEngine.Proofs.Connection.Lifecycle
import FrameEngine.Proofs.Connection.Still

/-!
# FrameEngine.Proofs.Connection.Intake

What a step is to the reading side (`Intake`, `intake_of_step`): it leaves it still, or it is a turn
of the read loop (`LoopTurn`), or a direct receive begins or goes on (`Receipt`). Each case says
which octets the step has brought, who has them now, and what has come of them.

Only the read loop and direct receives read. A direct receive puts what it reads behind what earlier
ones have left, and answers with the first that this gives; the read loop puts it behind what it has
left itself, and gives the handler all that comes out.
-/

namespace FrameEngine

/-- The octets that the label brings to the read loop, as a list of at most one piece. -/
def Label.loopReads : Label → List Octets
  | .wake .reader (.read (.ok d)) => if d.isEmpty then [] else [d]
  | _ => []

/-- The octets that the label brings to a direct receive. -/
def Label.directReads : Label → List Octets
  | .wake (.direct _) (.read (.ok d)) => if d.isEmpty then [] else [d]
  | _ => []

/-- What the read loop has and has not used yet, once it has the read half. -/
def ReadLoop.buffer? : ReadLoop → Option Octets
  | .paused _ buffer _ => some buffer.held
  | .reading _ buffer => some buffer.held
  | _ => none

/-- What a direct call has been answered with that came off the stream: a message, or an error of
the framing. -/
def DirectCall.result? : DirectCall → Option (Except EngineError Message)
  | .answered (.ok (some m)) => some (.ok m)
  | .answered (.error e) => if e.errorClass = .protocol then some (.error e) else none
  | _ => none

namespace Connection

/-- A direct call that is a send, or was one: nothing that came off the stream. -/
def Aside (call : DirectCall) : Prop := call.isSend = true ∧ call.result? = none

/-- Where the read loop is after a turn: it has so many octets left and goes on, or it has ended and
the connection with it. -/
inductive Onward (half : Keeping) (buffer : Octets) (c' : Connection) :
    Keeping → ReadLoop → Prop where
  | goes {reader : ReadLoop} (left : reader.buffer? = some buffer) :
      Onward half buffer c' half reader
  | ends (closed : c'.isClosed = true) : Onward half buffer c' .gone .finished

/-- A turn of the read loop. -/
inductive LoopTurn (s : Setup) (c : Connection) : Wake → Connection → Prop where
  /-- It asks for the read half and has to wait. -/
  | asks {c' : Connection} (fresh : c.reader = .fresh)
      (rest : Still { c with readLock := c.readLock.request .loop, reader := .locking } c' []) :
      LoopTurn s c .go c'
  /-- It has the lock of the read half and passes it on, with the half or without. -/
  | takes {lock : Lock} {half : Keeping} {reader : ReadLoop} {c' : Connection}
      (turn : c.reader = .fresh ∧ lock = c.readLock.request .loop ∨
        c.reader = .locking ∧ lock = c.readLock)
      (held : lock.isHeldBy .loop = true) (apart : half ≠ .kept)
      (next : reader.buffer? = some [] ∨ reader = .finished ∧ c'.isClosed = true)
      (rest : Still { c with readLock := lock.release, readHalf := half, reader } c' []) :
      LoopTurn s c .go c'
  /-- It gets no octets. -/
  | waits {w : Wake} {buffer : Octets} {half : Keeping} {reader : ReadLoop} {c' : Connection}
      (dry : ∀ d, w = .read (.ok d) → d = []) (has : c.reader.buffer? = some buffer)
      (next : Onward c.readHalf buffer c' half reader)
      (rest : Still { c with readHalf := half, reader } c' []) : LoopTurn s c w c'
  /-- It gets octets. What is left of them and of what it has is kept if a frame has room for it. -/
  | hears {d buffer left kept : Octets} {half : Keeping} {reader : ReadLoop} {c' : Connection}
      {results all : List (Except EngineError Message)} (fed : d ≠ [])
      (has : c.reader.buffer? = some buffer)
      (decodes : Codec.Decodes s.framing (buffer ++ d) all left) (heard : results <+: all)
      (whole : c'.isClosed = false ∨ reader.buffer?.isSome = true → results = all)
      (room : left.length ≤ s.framing.maxFrameLength → reader.buffer?.isSome = true → kept = left)
      (next : Onward c.readHalf kept c' half reader)
      (rest : Still { c.record (.bytesRead d.length) with readHalf := half, reader } c' results) :
      LoopTurn s c (.read (.ok d)) c'

/-- The direct receive with this number has the lock of the read half, or is at the stream. -/
def Receiving (c : Connection) (ticket : Nat) : Prop :=
  ∃ call, c.direct[ticket]? = some call ∧
    (call = .locking ∧ c.readLock.isHeldBy (.direct ticket) = true ∨ call.asksStream = true)

/-- A direct receive goes on. -/
inductive Receipt (s : Setup) (c : Connection) (ticket : Nat) : Connection → Prop where
  /-- It asks the stream for more. -/
  | waits {call : DirectCall} {c' : Connection} (asks : call.asksStream = true)
      (kept : c.readHalf = .kept ∨
        ∃ before, c.direct[ticket]? = some before ∧ before.asksStream = true)
      (rest : Still (c.setDirect ticket call) c' []) : Receipt s c ticket c'
  /-- It is answered with what comes first of what direct receives have read. -/
  | answers {r : Except EngineError Message} {next : Octets} {c' : Connection}
      (decoded : Codec.decode s.framing c.pending.held = (r.map some, next))
      (rest : Still { c with
        direct := c.direct.set ticket (.answered (r.map some))
        readLock := c.readLock.release
        pending := ⟨next⟩ } c' []) : Receipt s c ticket c'
  /-- It fails, or what has been read is more than a frame can be. -/
  | fails {e : EngineError} {half : Keeping} {pending : Accumulator} {c' : Connection}
      (plain : e.errorClass ≠ .protocol) (drops : half = c.readHalf ∨ half = .gone)
      (room : pending = c.pending ∨ s.framing.maxFrameLength < c.pending.length ∧
        s.framing.unpack c.pending.held = .error .short)
      (rest : Still { c with
        direct := c.direct.set ticket (.answered (.error e))
        readLock := c.readLock.release
        readHalf := half
        pending } c' []) : Receipt s c ticket c'

/-- A direct receive has joined those who ask for the read half. -/
def inLine (c : Connection) : Connection :=
  { c with
    direct := c.direct ++ [DirectCall.locking]
    readLock := c.readLock.request (.direct c.direct.length) }

/-- What a step is to the reading side. -/
inductive Intake (s : Setup) (c : Connection) : Label → Connection → Prop where
  | still {l : Label} {c' : Connection} (loop : l.loopReads = []) (direct : l.directReads = [])
      (rest : Still c c' []) : Intake s c l c'
  /-- A run begins. -/
  | begins {l : Label} {reader : ReadLoop} {c' : Connection} (loop : l.loopReads = [])
      (direct : l.directReads = []) (fresh : c.started = false)
      (set : reader = .fresh ∨ reader = .absent) (rest : Still { c with reader } c' []) :
      Intake s c l c'
  /-- A direct send begins. -/
  | sends {frame : Octets} {call : DirectCall} {c' : Connection} (aside : Aside call)
      (rest : Still { c with direct := c.direct ++ [call] } c' []) :
      Intake s c (.sendDirect frame) c'
  /-- A direct send goes on. -/
  | drives {ticket : Nat} {job : WriteJob} {call : DirectCall} {w : Wake} {c' : Connection}
      (direct : (Label.wake (.direct ticket) w).directReads = [])
      (sending : c.direct[ticket]? = some (.sending job)) (aside : Aside call)
      (rest : Still (c.setDirect ticket call) c' []) : Intake s c (.wake (.direct ticket) w) c'
  /-- The read loop has its turn. -/
  | loops {w : Wake} {c' : Connection} (turn : LoopTurn s c w c') : Intake s c (.wake .reader w) c'
  /-- A direct receive begins and has to wait. -/
  | joins {c' : Connection} (rest : Still c.inLine c' []) : Intake s c .receiveDirect c'
  /-- A direct receive begins, and finds the lock free. -/
  | enters {c' : Connection} (turn : c.inLine.Receiving c.direct.length)
      (receipt : Receipt s c.inLine c.direct.length c') : Intake s c .receiveDirect c'
  /-- A direct receive goes on and gets no octets. -/
  | goes {ticket : Nat} {w : Wake} {c' : Connection} (dry : ∀ d, w = .read (.ok d) → d = [])
      (turn : c.Receiving ticket) (receipt : Receipt s c ticket c') :
      Intake s c (.wake (.direct ticket) w) c'
  /-- A direct receive gets octets. -/
  | gets {ticket : Nat} {d : Octets} {c' : Connection} (fed : d ≠ [])
      (turn : ∃ call, c.direct[ticket]? = some call ∧ call.asksStream = true)
      (receipt : Receipt s
        { c.record (.bytesRead d.length) with pending := c.pending.append d } ticket c') :
      Intake s c (.wake (.direct ticket) (.read (.ok d))) c'

variable {s : Setup} {c c' c₁ : Connection} {results : List (Except EngineError Message)}

/-! ## The read loop -/

theorem still_exitReader (c : Connection) :
    Still { c with readHalf := .gone, reader := .finished } (c.exitReader s) [] :=
  (still_close { c with readHalf := .gone }).with_reader .finished

theorem isClosed_close (c : Connection) : (c.close s).isClosed = true := by
  cases hc : c.isClosed with
  | true => rw [close, if_pos hc, hc]
  | false =>
    rw [isClosed_eq_true, stage_close_of_live hc]
    intro hlive
    cases hlive

theorem isClosed_exitReader (c : Connection) : (c.exitReader s).isClosed = true :=
  isClosed_close { c with readHalf := .gone }

/-- A round of the read loop keeps the buffer, unless it finds the connection closed. -/
theorem onward_readerRound (c : Connection) (buffer : Accumulator) (b : Backoff) :
    ∃ half reader, Onward c.readHalf buffer.held (c.readerRound s buffer b) half reader ∧
      (reader.buffer?.isSome = true → c.isClosed = false) ∧
      Still { c with readHalf := half, reader } (c.readerRound s buffer b) [] := by
  unfold readerRound
  split
  · exact ⟨_, _, .ends (isClosed_exitReader c), nofun, still_exitReader c⟩
  · rename_i hopen
    have hopen' : c.isClosed = false := Bool.eq_false_iff.2 hopen
    obtain ⟨taken, limiter, h⟩ := tryAcquire_eq c
    rw [h]
    cases taken with
    | true => exact ⟨_, .reading _ buffer, .goes rfl, fun _ => hopen', .of_inlet rfl⟩
    | false => exact ⟨_, .paused _ buffer b, .goes rfl, fun _ => hopen', .of_inlet rfl⟩

theorem loopTurn_takeReadHalf {lock : Lock}
    (turn : c.reader = .fresh ∧ lock = c.readLock.request .loop ∨
      c.reader = .locking ∧ lock = c.readLock) (held : lock.isHeldBy .loop = true) :
    LoopTurn s c .go (takeReadHalf s { c with readLock := lock }) := by
  unfold takeReadHalf
  dsimp only
  split
  · obtain ⟨half, reader, hnext, -, hrest⟩ := onward_readerRound (s := s)
      { c with readLock := lock.release, readHalf := .taken } .empty (.ofPolicy s.settings.retry)
    have htaken : Keeping.taken ≠ .kept := nofun
    have hgone : Keeping.gone ≠ .kept := nofun
    cases hnext with
    | goes left => exact .takes turn held htaken (.inl left) hrest
    | ends closed => exact .takes turn held hgone (.inr ⟨rfl, closed⟩) hrest
  · rename_i hhalf
    exact .takes turn held hhalf (.inr ⟨rfl, isClosed_close _⟩)
      ((still_close { c with readLock := lock.release }).with_reader .finished)

/-- Octets for the read loop: the handler gets what comes of them, and the rest waits for more. -/
theorem loopTurn_hears {job : ReadJob} {buffer : Accumulator} {d : Octets} {b : Backoff}
    (hd : d ≠ []) (hreader : c.reader = .reading job buffer) :
    let drained := (c.touch.record (.bytesRead d.length)).drain s (buffer.append d)
    let bound := drained.1.boundBuffer s drained.2
    LoopTurn s c (.read (.ok d)) (bound.1.readerRound s bound.2 b) := by
  intro drained bound
  have hdecodes := Codec.decodes_drain s.framing (buffer.held ++ d)
  generalize (Codec.drain s.framing (buffer.held ++ d)).1 = all at hdecodes
  generalize (Codec.drain s.framing (buffer.held ++ d)).2 = left at hdecodes
  obtain ⟨results, hdrain, hprefix, hall⟩ : ∃ results,
      Still (c.touch.record (.bytesRead d.length)) drained.1 results ∧ results <+: all ∧
        (drained.1.isClosed = false → results = all ∧ drained.2 = ⟨left⟩) :=
    still_drain hdecodes _
  have htouch : Still (c.record (.bytesRead d.length)) (c.touch.record (.bytesRead d.length)) [] :=
    .of_inlet rfl
  have hbound : Still drained.1 bound.1 [] := still_boundBuffer _ _
  have hrest : Still (c.record (.bytesRead d.length)) bound.1 results :=
    (htouch.trans hdrain).andThen hbound
  obtain ⟨half, reader, hnext, hopen, hround⟩ := onward_readerRound (s := s) bound.1 bound.2 b
  cases hnext with
  | goes has =>
    have hsome : reader.buffer?.isSome = true := by rw [has]; rfl
    obtain ⟨hresults, hleft⟩ := hall (hbound.isOpen (hopen hsome))
    refine .hears hd (by rw [hreader]; rfl) hdecodes hprefix (fun _ => hresults) (fun hle _ => ?_)
      (.goes has) ((hrest.with_reader reader).andThen hround)
    have hle' : drained.2.length ≤ s.framing.maxFrameLength := by rw [hleft]; exact hle
    have hsame : bound.2 = drained.2 := congrArg Prod.snd (boundBuffer_of_le hle')
    rw [hsame, hleft]
  | ends closed =>
    refine .hears hd (by rw [hreader]; rfl) hdecodes hprefix (fun h => ?_) (fun _ _ => rfl)
      (.ends closed) (((hrest.with_half .gone).with_reader .finished).andThen hround)
    rcases h with h | h
    · exact (hall (hbound.isOpen (hround.isOpen h))).1
    · cases h

theorem loopTurn_of_stepReader {w : Wake} (h : c.stepReader s w = some c') :
    LoopTurn s c w c' := by
  cases readerStep_of h with
  | begins fresh held => exact loopTurn_takeReadHalf (.inl ⟨fresh, rfl⟩) held
  | queues fresh => exact .asks fresh (.of_inlet rfl)
  | enters locking held => exact loopTurn_takeReadHalf (.inr ⟨locking, rfl⟩) held
  | stops paused closed =>
    exact .waits nofun (by rw [paused]; rfl) (.ends (isClosed_exitReader c)) (still_exitReader c)
  | @resumes _ buffer b paused due =>
    obtain ⟨half, reader, hnext, -, hrest⟩ := onward_readerRound (s := s) c buffer b
    exact .waits nofun (by rw [paused]; rfl) hnext hrest
  | @goes _ job job' buffer c₁ reading read =>
    rcases stepRead_cases read with ⟨d, b, hp, _⟩ | ⟨hstill, hnone, _⟩
    · cases hp
    · exact .waits hnone (by rw [reading]; rfl) (.goes rfl)
        (hstill.with_reader (.reading job' buffer))
  | @fails _ job buffer c₁ e reading read =>
    rcases stepRead_cases read with ⟨d, b, hp, _⟩ | ⟨hstill, hnone, _⟩
    · cases hp
    · have hreport := hstill.andThen
        (still_reportExit (s := s) c₁ (not_protocol_of_stepRead read))
      have hgone := (hreport.with_half .gone).with_reader .finished
      exact .waits hnone (by rw [reading]; rfl) (.ends (isClosed_exitReader _))
        (hgone.trans (still_exitReader _))
  | hears reading read =>
    rcases stepRead_cases read with ⟨d', b', hp, rfl, hd, rfl⟩ | ⟨_, _, hnot⟩
    · cases hp
      exact loopTurn_hears hd reading
    · exact absurd rfl (hnot _ _)

/-! ## Direct receives -/

theorem receipt_endReceive {ticket : Nat} {e : EngineError} (c : Connection)
    (he : e.errorClass ≠ .protocol) : Receipt s c ticket (c.endReceive ticket (.error e)) :=
  .fails he (.inl rfl) (.inl rfl) (.of_inlet rfl)

theorem receipt_receiveMore {ticket : Nat} {b : Backoff} (kept : c.readHalf = .kept ∨
      ∃ before, c.direct[ticket]? = some before ∧ before.asksStream = true) :
    Receipt s c ticket (c.receiveMore s ticket b) := by
  obtain ⟨call, limiter, h, hcall⟩ := receiveMore_eq (s := s) c ticket b
  rw [h]
  exact .waits hcall kept (.of_inlet rfl)

theorem Drawn.still {r : Except EngineError Message} {next : Octets} (h : Drawn c next r c') :
    Still { c with pending := ⟨next⟩ } c' [] := by
  cases h with
  | message m =>
    have htouch : Still { c with pending := ⟨next⟩ } { c with pending := ⟨next⟩ }.touch [] :=
      .of_inlet rfl
    exact htouch.trans (.record _ rfl rfl)
  | failure e =>
    exact (Still.record { c with pending := ⟨next⟩ } (t := .error) rfl rfl).trans
      (.record _ rfl rfl)

/-- What has been read gives an answer, or the stream is asked for more, or what is there is too
much for a frame. -/
theorem receivePending_cases (c : Connection) :
    c.receivePending s = (c, none) ∨
    (∃ c' r next, c.receivePending s = (c', some r) ∧
      Codec.decode s.framing c.pending.held = (r.map some, next) ∧
      Still { c with pending := ⟨next⟩ } c' []) ∨
    ∃ c' e, c.receivePending s = (c', some (.error e)) ∧ e.errorClass ≠ .protocol ∧
      s.framing.maxFrameLength < c.pending.length ∧
      s.framing.unpack c.pending.held = .error .short ∧
      Still { c with pending := .empty } c' [] := by
  rcases Codec.decode_cases s.framing c.pending.held with hnone | ⟨r, next, hresult, -⟩
  · have hshort := Codec.unpack_of_decode_none hnone
    by_cases hle : c.pending.length ≤ s.framing.maxFrameLength
    · exact .inl (receivePending_of_short hle hshort)
    · have hlong := Nat.lt_of_not_le hle
      refine .inr (.inr ⟨_, .bufferOverflow c.pending.length s.framing.maxFrameLength,
        receivePending_of_long hlong hshort, nofun, hlong, hshort, .record _ rfl rfl⟩)
  · obtain ⟨c', hr, hdrawn⟩ := receivePending_of_result (c := c) hresult
    exact .inr (.inl ⟨c', r, next, hr, hresult, hdrawn.still⟩)

theorem Still.setDirect (h : Still c c' results) (ticket : Nat) (call : DirectCall) :
    Still (c.setDirect ticket call) (c'.setDirect ticket call) results := by
  refine ⟨h.reader, h.lock, h.half, h.pending, ?_, h.heard, h.closed, h.counted⟩
  show c'.direct.set ticket call = c.direct.set ticket call
  rw [h.direct]

/-- Whoever answers passes the lock of the read half on. -/
theorem Still.with_answer (h : Still c c' results) (ticket : Nat) (call : DirectCall)
    (pending : Accumulator) :
    Still
      { c with direct := c.direct.set ticket call, readLock := c.readLock.release, pending }
      { c' with direct := c'.direct.set ticket call, readLock := c'.readLock.release, pending }
      results := by
  refine ⟨h.reader, congrArg Lock.release h.lock, ?_, rfl, ?_, h.heard, h.closed, h.counted⟩
  · rcases h.half with hh | ⟨hgone, hkept, hfree⟩
    · exact .inl hh
    · exact .inr ⟨hgone, hkept, congrArg Lock.release hfree⟩
  · show c'.direct.set ticket call = c.direct.set ticket call
    rw [h.direct]

theorem still_endReceive {pending : Accumulator} (h : Still { c with pending } c' [])
    (ticket : Nat) (result : Except EngineError Message) :
    Still { c with
      direct := c.direct.set ticket (.answered (result.map some))
      readLock := c.readLock.release
      pending } (c'.endReceive ticket result) [] := by
  have hanswer := h.with_answer ticket (.answered (result.map some)) pending
  have hpending : c'.pending = pending := h.pending
  rw [← hpending] at hanswer ⊢
  exact hanswer

/-- What a receive does after a while is what it does. -/
theorem Receipt.of_still {ticket : Nat} (h : Still c c₁ []) (hr : Receipt s c₁ ticket c') :
    Receipt s c ticket c' := by
  cases hr with
  | @waits call _ asks kept rest =>
    refine .waits asks ?_ ((h.setDirect ticket call).trans rest)
    rcases kept with hkept | ⟨before, hbefore, hasks⟩
    · rcases h.half with hh | ⟨hgone, _⟩
      · exact .inl (hh.symm.trans hkept)
      · cases hgone.symm.trans hkept
    · exact .inr ⟨before, h.direct ▸ hbefore, hasks⟩
  | @answers r next _ decoded rest =>
    rw [h.pending] at decoded
    exact .answers decoded ((h.with_answer ticket _ _).trans rest)
  | @fails e half pending _ plain drops room rest =>
    rw [h.pending] at room
    refine .fails plain ?_ room (((h.with_half half).with_answer ticket _ _).trans rest)
    rcases drops with rfl | hgone
    · exact h.half.imp id And.left
    · exact .inr hgone

theorem receipt_receiveRound {ticket : Nat} {b : Backoff} (kept : c.readHalf = .kept ∨
      ∃ before, c.direct[ticket]? = some before ∧ before.asksStream = true) :
    Receipt s c ticket (c.receiveRound s ticket b) := by
  unfold receiveRound
  rcases receivePending_cases (s := s) c with h | ⟨c', r, next, h, hdecode, hstill⟩ |
    ⟨c', e, h, he, hlong, hshort, hstill⟩
  · rw [h]
    exact receipt_receiveMore kept
  · rw [h]
    exact .answers hdecode (still_endReceive hstill ticket r)
  · rw [h]
    exact .fails he (.inl rfl) (.inr ⟨hlong, hshort⟩)
      (still_endReceive hstill ticket (.error e))

theorem receipt_takeReceive (c : Connection) (ticket : Nat) :
    Receipt s c ticket (c.takeReceive s ticket) := by
  unfold takeReceive
  split
  · rename_i hkept
    exact receipt_receiveRound (.inl hkept)
  · refine receipt_endReceive c ?_
    split <;> nofun

theorem receipt_failReceive {ticket : Nat} {e : EngineError} (c : Connection)
    (he : e.errorClass ≠ .protocol) : Receipt s c ticket (c.failReceive s ticket e) := by
  unfold failReceive
  dsimp only
  have hsame : c.pending = c.pending := rfl
  refine .fails he (.inr rfl) (.inl hsame) ?_
  split
  · exact still_close _
  · exact (Still.record _ (t := .error) rfl rfl).trans (still_close _)

/-! ## Direct sends -/

theorem aside_ends {result : Except EngineError Unit}
    (h : ∀ e, result = .error e → e.isStream = true) :
    Aside (.answered (result.map fun _ => none)) := by
  refine ⟨rfl, ?_⟩
  cases result with
  | ok u => rfl
  | error e => exact if_neg (EngineError.not_protocol_of_stream (h e rfl))

theorem inlet_afterSend {p : WriteProgress} (c : Connection) (ticket : Nat)
    (hp : ∀ e, p = .ends (.error e) → e.isStream = true) :
    ∃ call, Aside call ∧
      (c.afterSend ticket p).inlet = { c.inlet with direct := c.direct.set ticket call } := by
  cases p with
  | goes job => exact ⟨.sending job, ⟨rfl, rfl⟩, rfl⟩
  | ends result => exact ⟨_, aside_ends fun e he => hp e (congrArg _ he), rfl⟩

theorem intake_beginSend (c : Connection) (frame : Octets) :
    Intake s c (.sendDirect frame) (c.beginSend s frame) := by
  unfold beginSend
  dsimp only
  have hinlet := inlet_requestWrite (s := s) { c with direct := c.direct ++ [DirectCall.locking] }
    (.direct c.direct.length) frame
  have hstream := (requestWrite_eq (s := s) { c with direct := c.direct ++ [DirectCall.locking] }
    (.direct c.direct.length) frame).2
  generalize requestWrite s (.direct c.direct.length)
    { c with direct := c.direct ++ [DirectCall.locking] } frame = r at hinlet hstream ⊢
  obtain ⟨c₁, p⟩ := r
  obtain ⟨call, haside, hcall⟩ := inlet_afterSend c₁ c.direct.length hstream
  have hdirect : c₁.direct = c.direct ++ [DirectCall.locking] := congrArg Inlet.direct hinlet
  rw [hinlet, hdirect, set_append_last] at hcall
  exact .sends haside (.of_inlet hcall)

/-! ## Steps -/

theorem loopReads_of_dry {w : Wake} (h : ∀ d, w = .read (.ok d) → d = []) (task : Task) :
    (Label.wake task w).loopReads = [] ∧ (Label.wake task w).directReads = [] := by
  cases task <;> cases w <;> try exact ⟨rfl, rfl⟩
  all_goals
    rename_i r
    cases r with
    | error f => exact ⟨rfl, rfl⟩
    | ok d => rw [h d rfl]; exact ⟨rfl, rfl⟩

theorem loopReads_read {d : Octets} (hd : d ≠ []) :
    (Label.wake .reader (.read (.ok d))).loopReads = [d] :=
  if_neg fun h => hd (List.isEmpty_iff.1 h)

theorem directReads_read {d : Octets} (hd : d ≠ []) (ticket : Nat) :
    (Label.wake (.direct ticket) (.read (.ok d))).directReads = [d] :=
  if_neg fun h => hd (List.isEmpty_iff.1 h)

theorem exists_read_of_loopReads {l : Label} (h : l.loopReads ≠ []) :
    ∃ d, l = .wake .reader (.read (.ok d)) ∧ d ≠ [] := by
  unfold Label.loopReads at h
  split at h
  · rename_i d
    refine ⟨d, rfl, ?_⟩
    rintro rfl
    exact h rfl
  · exact absurd rfl h

theorem intake_stepDirect {ticket : Nat} {w : Wake} (h : c.stepDirect s ticket w = some c') :
    Intake s c (.wake (.direct ticket) w) c' := by
  cases directStep_of h with
  | sends sending write =>
    rename_i c₁ p
    obtain ⟨hstill, hnot⟩ := still_stepWrite write
    obtain ⟨call, haside, hinlet⟩ :=
      inlet_afterSend c₁ ticket fun e he => stream_of_stepWrite write he
    have hdry := loopReads_of_dry (fun d hd => absurd hd (hnot _)) (.direct ticket)
    refine .drives hdry.2 sending haside ?_
    exact (hstill.setDirect ticket call).trans (.of_inlet hinlet)
  | enters locking held =>
    exact .goes nofun ⟨_, locking, .inl ⟨rfl, held⟩⟩ (receipt_takeReceive c ticket)
  | stops paused closed =>
    exact .goes nofun ⟨_, paused, .inr rfl⟩ (receipt_endReceive c nofun)
  | resumes paused due =>
    exact .goes nofun ⟨_, paused, .inr rfl⟩ (receipt_receiveMore (.inr ⟨_, paused, rfl⟩))
  | @goes _ _ job' _ reading read =>
    rcases stepRead_cases read with ⟨d, b, hp, _⟩ | ⟨hstill, hdry, _⟩
    · cases hp
    · exact .goes hdry ⟨_, reading, .inr rfl⟩
        (.waits rfl (.inr ⟨_, reading, rfl⟩) (hstill.setDirect ticket (.reading job')))
  | @fails _ _ c₁ e reading read =>
    rcases stepRead_cases read with ⟨d, b, hp, _⟩ | ⟨hstill, hdry, _⟩
    · cases hp
    · exact .goes hdry ⟨_, reading, .inr rfl⟩
        (.of_still hstill (receipt_failReceive c₁ (not_protocol_of_stepRead read)))
  | @hears _ _ c₁ d b reading read =>
    rcases stepRead_cases read with ⟨d', b', hp, rfl, hd, rfl⟩ | ⟨_, _, hnot⟩
    · cases hp
      have htouch : Still
          { c.record (.bytesRead d.length) with pending := c.pending.append d }
          { c.touch.record (.bytesRead d.length) with pending := c.pending.append d } [] :=
        .of_inlet rfl
      exact .gets hd ⟨_, reading, rfl⟩
        (.of_still htouch (receipt_receiveRound (.inr ⟨_, reading, rfl⟩)))
    · exact absurd rfl (hnot d b)

theorem intake_start (loops : LoopSet) {l : Label} (hl : l.loopReads = [])
    (hd : l.directReads = []) (h : c₁.inlet = c.inlet) (hs : c₁.started = c.started) :
    Intake s c l (c₁.start s loops) := by
  have hsame : Still c c₁ [] := .of_inlet h
  rcases still_start (s := s) c₁ loops with hstart | ⟨hfresh, reader, hreader, hstart⟩
  · exact .still hl hd (hsame.trans hstart)
  · exact .begins hl hd (hs.symm.trans hfresh) hreader ((hsame.with_reader reader).trans hstart)

theorem intake_beginReceive (c : Connection) : Intake s c .receiveDirect (c.beginReceive s) := by
  unfold beginReceive
  dsimp only
  split
  · rename_i hheld
    refine .enters ⟨.locking, ?_, .inl ⟨rfl, hheld⟩⟩ (receipt_takeReceive c.inLine _)
    exact List.getElem?_concat_length
  · exact .joins (.refl c.inLine)

theorem intake_of_step {l : Label} (h : c.step s l = some c') : Intake s c l c' := by
  cases step_of h with
  | ticks timers wall => exact .still rfl rfl (.of_inlet rfl)
  | starts loops => exact intake_start loops rfl rfl rfl rfl
  | obeys => exact intake_start _ rfl rfl rfl rfl
  | closes => exact .still rfl rfl (still_close c)
  | @sends m frame queue | @queues frame queue =>
    have hqueue : Still c { c with queue } [] := .of_inlet rfl
    exact .still rfl rfl (hqueue.trans (.note _ rfl))
  | refuses | rejects => exact .still rfl rfl (.refl c)
  | sendsDirect frame => exact intake_beginSend c frame
  | receives => exact intake_beginReceive c
  | reader went => exact .loops (loopTurn_of_stepReader went)
  | writer went => exact .still rfl rfl (still_stepWriter went)
  | idler went => exact .still rfl rfl (still_stepIdler went)
  | runner went => exact .still rfl rfl (still_stepRunner went)
  | direct went => exact intake_stepDirect went

/-! ## What is counted -/

theorem counted_of_receipt {ticket : Nat} (h : Receipt s c ticket c') : Counted 0 c c' := by
  cases h with
  | waits _ _ rest => exact rest.counted
  | answers _ rest => exact rest.counted
  | fails _ _ _ rest => exact rest.counted

/-- Each step counts the octets that it brings, and nothing that only a server counts. -/
theorem counted_of_step {l : Label} (h : c.step s l = some c') :
    Counted (l.directReads ++ l.loopReads).flatten.length c c' := by
  cases intake_of_step h with
  | still loop direct rest => rw [loop, direct]; exact rest.counted
  | begins loop direct _ _ rest => rw [loop, direct]; exact rest.counted
  | sends _ rest => exact rest.counted
  | drives direct _ _ rest => rw [direct]; exact rest.counted
  | loops turn =>
    cases turn with
    | asks _ rest => exact rest.counted
    | takes _ _ _ _ rest => exact rest.counted
    | waits dry _ _ rest =>
      obtain ⟨hloop, hdirect⟩ := loopReads_of_dry dry .reader
      rw [hloop, hdirect]; exact rest.counted
    | @hears d _ _ _ _ _ _ _ _ fed _ _ _ _ _ _ rest =>
      rw [Label.directReads, loopReads_read fed, List.nil_append, List.flatten_singleton]
      exact (Counted.record c (t := .bytesRead d.length) rfl).trans rest.counted
      nofun
  | joins rest => exact rest.counted
  | enters _ receipt =>
    have hline : Counted 0 c c.inLine := .of_counters rfl rfl
    exact hline.trans (counted_of_receipt receipt)
  | @goes ticket _ _ dry _ receipt =>
    obtain ⟨hloop, hdirect⟩ := loopReads_of_dry dry (.direct ticket)
    rw [hloop, hdirect]; exact counted_of_receipt receipt
  | @gets ticket d _ fed _ receipt =>
    have hloop : (Label.wake (.direct ticket) (.read (.ok d))).loopReads = [] := rfl
    rw [hloop, directReads_read fed, List.append_nil, List.flatten_singleton]
    have hrecord : Counted d.length c
        { c.record (.bytesRead d.length) with pending := c.pending.append d } :=
      Counted.record c (t := .bytesRead d.length) rfl
    exact hrecord.trans (counted_of_receipt receipt)

/-- What a run counts as read is what it has read. -/
theorem counted_of_steps {ls : List Label} (run : Steps s c ls c') :
    Counted (ls.flatMap fun l => l.directReads ++ l.loopReads).flatten.length c c' := by
  induction run with
  | nil c => exact .refl c
  | cons first _ ih =>
    rw [List.flatMap_cons, List.flatten_append, List.length_append]
    exact (counted_of_step first).trans ih

end Connection
end FrameEngine
