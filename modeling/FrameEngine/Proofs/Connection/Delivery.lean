import FrameEngine.Proofs.Connection.Intake
import FrameEngine.Proofs.Framing.Reassembly

/-!
# FrameEngine.Proofs.Connection.Delivery

What the handler hears depends on the octets that the read loop reads, and on nothing else.

`Delivered` is what holds of a connection whose read loop has read some pieces: the handler has
heard the beginning of what a decoder makes of them, and a loop that goes on has told it all and has
in its buffer what the decoder has left. `delivered_step` carries it over a step. No other task of
the connection is in it, and no clock: a retry, a pause for a token and a deadline bring no octets,
so they leave both sides as they are.

`delivered_as_read` is that for a run in which each read leaves the connection open.
-/

namespace FrameEngine

open Codec (feed)

namespace Codec

/-- However the stream is cut, what is left of it waits for more. -/
theorem short_feed {f : Framing} {pieces : List Octets} :
    ∀ {buf : Octets}, f.unpack buf = .error .short →
      f.unpack (feed f buf pieces).2 = .error .short := by
  induction pieces with
  | nil => intro buf h; exact h
  | cons piece pieces ih =>
    intro buf _
    exact ih (Connection.left_of_decodes (decodes_drain f (buf ++ piece))).1

theorem drain_of_decodes {f : Framing} {buf left : Octets}
    {results : List (Except EngineError Message)} (h : Decodes f buf results left) :
    drain f buf = (results, left) := by
  induction h with
  | stop h => exact drain_of_none h
  | step h _ _ ih => rw [drain_of_result h, ih]

theorem short_nil (f : Framing) : f.unpack [] = .error .short :=
  unpack_of_decode_none (decode_nil f)

end Codec

namespace Connection

variable {s : Setup} {c c' : Connection} {pieces : List Octets}

/-- The read loop has read these pieces, and the handler has heard what comes of them. -/
structure Delivered (s : Setup) (pieces : List Octets) (c : Connection) : Prop where
  heard : c.heard <+: (feed s.framing [] pieces).1
  /-- A loop that goes on has given the handler all there is. -/
  going : ∀ buffer, c.reader.buffer? = some buffer →
    c.heard = (feed s.framing [] pieces).1 ∧ buffer = (feed s.framing [] pieces).2
  waiting : c.reader.buffer? = none → c.reader ≠ .finished → pieces = []
  finished : c.reader = .finished → c.isClosed = true

theorem delivered_new (s : Setup) : Delivered s [] (new s) :=
  ⟨List.nil_prefix, nofun, fun _ _ => rfl, nofun⟩

/-- A connection that is open has told its handler all there is. -/
theorem Delivered.of_open (h : Delivered s pieces c) (hopen : c.isClosed = false) :
    c.heard = (feed s.framing [] pieces).1 := by
  cases hbuffer : c.reader.buffer? with
  | some buffer => exact (h.going buffer hbuffer).1
  | none =>
    by_cases hover : c.reader = .finished
    · cases (h.finished hover).symm.trans hopen
    · have hpieces := h.waiting hbuffer hover
      have hheard := h.heard
      rw [hpieces] at hheard ⊢
      exact List.prefix_nil.1 hheard

section

variable {c₁ : Connection} {l : Label}

/-- Nothing is read and the loop stays where it is, whatever else has been done before. -/
theorem Delivered.still (h : Delivered s pieces c) (hl : l.loopReads = []) (rest : Still c₁ c' [])
    (hr : c₁.reader = c.reader) (hh : c₁.heard = c.heard) (hc : c₁.isClosed = c.isClosed) :
    Delivered s (pieces ++ l.loopReads) c' := by
  have hreader : c'.reader = c.reader := rest.reader.trans hr
  have hheard : c'.heard = c.heard := by rw [rest.heard, List.append_nil, hh]
  rw [hl, List.append_nil]
  refine ⟨?_, ?_, ?_, fun hover => rest.closed (hc.trans (h.finished (hreader ▸ hover)))⟩
  · rw [hheard]; exact h.heard
  · rw [hheard, hreader]; exact h.going
  · rw [hreader]; exact h.waiting

/-- A direct receive is none of the loop's business. -/
theorem Delivered.receipt {ticket : Nat} (h : Delivered s pieces c) (hl : l.loopReads = [])
    (receipt : Receipt s c₁ ticket c') (hr : c₁.reader = c.reader) (hh : c₁.heard = c.heard)
    (hc : c₁.isClosed = c.isClosed) : Delivered s (pieces ++ l.loopReads) c' := by
  cases receipt with
  | waits _ _ rest => exact h.still hl rest hr hh hc
  | answers _ rest => exact h.still hl rest hr hh hc
  | fails _ _ _ rest => exact h.still hl rest hr hh hc

/-- Before the loop has the read half, it has read nothing and the handler has heard nothing. -/
theorem Delivered.before {reader : ReadLoop} (h : Delivered s pieces c)
    (hbuffer : c.reader.buffer? = none) (hgoes : c.reader ≠ .finished)
    (hl : l.loopReads = []) (rest : Still c₁ c' []) (hr : c₁.reader = reader)
    (hh : c₁.heard = c.heard)
    (next : reader.buffer? = none ∧ reader ≠ .finished ∨ reader.buffer? = some [] ∨
      reader = .finished ∧ c'.isClosed = true) :
    Delivered s (pieces ++ l.loopReads) c' := by
  have hpieces : pieces = [] := h.waiting hbuffer hgoes
  have hnone : c'.heard = [] := by
    have hprefix := h.heard
    rw [hpieces] at hprefix
    rw [rest.heard, List.append_nil, hh]
    exact List.prefix_nil.1 hprefix
  have hreader : c'.reader = reader := rest.reader.trans hr
  rw [hl, hpieces, List.append_nil]
  refine ⟨hnone ▸ List.nil_prefix, fun buffer hb => ?_, fun _ _ => rfl, fun hover => ?_⟩
  · rw [hreader] at hb
    rcases next with ⟨hnext, _⟩ | hnext | ⟨rfl, _⟩
    · cases hnext.symm.trans hb
    · cases hnext.symm.trans hb
      exact ⟨hnone, rfl⟩
    · cases hb
  · rw [hreader] at hover
    rcases next with ⟨_, hnext⟩ | hnext | ⟨_, hclosed⟩
    · exact absurd hover hnext
    · rw [hover] at hnext; cases hnext
    · exact hclosed

end

theorem Delivered.onward {buffer : Octets} {half half' : Keeping} {reader : ReadLoop}
    (next : Onward half buffer c' half' reader) (hreader : c'.reader = reader)
    (hheard : c'.heard <+: (feed s.framing [] pieces).1)
    (hall : reader.buffer?.isSome = true →
      c'.heard = (feed s.framing [] pieces).1 ∧ buffer = (feed s.framing [] pieces).2) :
    Delivered s pieces c' := by
  cases next with
  | goes left =>
    refine ⟨hheard, fun b hb => ?_, fun hb _ => ?_, fun hover => ?_⟩
    · rw [hreader] at hb
      cases left.symm.trans hb
      exact hall (by rw [left]; rfl)
    · rw [hreader] at hb
      cases left.symm.trans hb
    · rw [← hreader, hover] at left
      cases left
  | ends closed =>
    refine ⟨hheard, fun b hb => ?_, fun _ hne => absurd hreader hne, fun _ => closed⟩
    rw [hreader] at hb
    cases hb

theorem delivered_turn {w : Wake}
    (hroom : (Label.wake .reader w).loopReads ≠ [] → s.framing.HoldsHeader)
    (hd : Delivered s pieces c) (turn : LoopTurn s c w c') :
    Delivered s (pieces ++ (Label.wake .reader w).loopReads) c' := by
  cases turn with
  | asks fresh rest =>
    exact hd.before (by rw [fresh]; rfl) (by rw [fresh]; nofun) rfl rest rfl rfl
      (.inl ⟨rfl, nofun⟩)
  | takes turn _ _ next rest =>
    have hbefore : c.reader.buffer? = none ∧ c.reader ≠ .finished := by
      rcases turn with ⟨h, _⟩ | ⟨h, _⟩ <;> rw [h] <;> exact ⟨rfl, nofun⟩
    exact hd.before hbefore.1 hbefore.2 rfl rest rfl rfl (.inr next)
  | waits dry has next rest =>
    have hsame : c'.heard = c.heard := rest.heard.trans (List.append_nil _)
    rw [(loopReads_of_dry dry .reader).1, List.append_nil]
    exact .onward next rest.reader (hsame ▸ hd.heard) fun _ => hsame ▸ hd.going _ has
  | @hears d buffer left kept _ reader _ results all fed has decodes heard whole room next rest =>
    obtain ⟨hheard, hbuffer⟩ := hd.going _ has
    have hpiece := loopReads_read fed
    -- the decoder goes on where the loop does, behind what is left of the earlier pieces
    have hfeed : feed s.framing [] (pieces ++ [d]) =
        ((feed s.framing [] pieces).1 ++ all, left) := by
      rw [Codec.feed_append, ← hbuffer]
      simp only [feed, Codec.drain_of_decodes decodes, List.append_nil]
    have hnow : c'.heard = (feed s.framing [] pieces).1 ++ results := by
      rw [← hheard]; exact rest.heard
    have hheader : s.framing.HoldsHeader := hroom (by rw [hpiece]; exact List.cons_ne_nil _ _)
    have hleft : left.length ≤ s.framing.maxFrameLength :=
      Framing.le_maxFrameLength_of_short hheader (left_of_decodes decodes).1
    rw [hpiece]
    refine .onward next rest.reader ?_ fun hgoes => ?_
    · rw [hnow, hfeed]
      exact (List.prefix_append_right_inj _).2 heard
    · rw [hnow, hfeed, whole (.inr hgoes), room hleft hgoes]
      exact ⟨rfl, rfl⟩

theorem delivered_step {l : Label} (hroom : l.loopReads ≠ [] → s.framing.HoldsHeader) (hk : Kept c)
    (hd : Delivered s pieces c) (h : c.step s l = some c') :
    Delivered s (pieces ++ l.loopReads) c' := by
  cases intake_of_step h with
  | still loop _ rest => exact hd.still loop rest rfl rfl rfl
  | begins loop _ fresh set rest =>
    have habsent : c.reader = .absent := by
      by_contra hr
      cases (hk.reads hr).symm.trans fresh
    refine hd.before (by rw [habsent]; rfl) (by rw [habsent]; nofun) loop rest rfl rfl (.inl ?_)
    rcases set with rfl | rfl <;> exact ⟨rfl, nofun⟩
  | sends _ rest => exact hd.still rfl rest rfl rfl rfl
  | drives _ _ _ rest => exact hd.still rfl rest rfl rfl rfl
  | loops turn => exact delivered_turn hroom hd turn
  | joins rest => exact hd.still rfl rest rfl rfl rfl
  | enters _ receipt => exact hd.receipt rfl receipt rfl rfl rfl
  | goes dry _ receipt => exact hd.receipt (loopReads_of_dry dry _).1 receipt rfl rfl rfl
  | gets _ _ receipt => exact hd.receipt rfl receipt rfl rfl rfl

theorem delivered_steps {ls : List Label} (run : Steps s c ls c') :
    ∀ {pieces}, (ls.flatMap Label.loopReads ≠ [] → s.framing.HoldsHeader) → Kept c →
      Delivered s pieces c → Delivered s (pieces ++ ls.flatMap Label.loopReads) c' := by
  induction run with
  | nil c =>
    intro pieces _ _ hd
    rw [List.flatMap_nil, List.append_nil]
    exact hd
  | @cons a b c l ls first _ ih =>
    intro pieces hroom hk hd
    have hkept := (advances_step false hk nofun nofun first).kept
    have hfirst := delivered_step (fun hl => hroom fun hnone => ?_) hk hd first
    · have hrest := ih (fun hls => hroom fun hnone => ?_) hkept hfirst
      · rwa [List.append_assoc] at hrest
      · exact hls (List.append_eq_nil_iff.1 hnone).2
    · exact hl (List.append_eq_nil_iff.1 hnone).1

/-! ## Runs that nobody disturbs -/

/-- A run in which all that the read loop reads leaves the connection open: nobody has closed it
from outside, and no callback closes it over what has been read. -/
inductive Undisturbed (s : Setup) : Connection → List Label → Connection → Prop where
  | nil (c : Connection) : Undisturbed s c [] c
  | cons {a b c : Connection} {l : Label} {ls : List Label} (first : a.step s l = some b)
      (calm : l.loopReads ≠ [] → b.isClosed = false) (rest : Undisturbed s b ls c) :
      Undisturbed s a (l :: ls) c

theorem Undisturbed.steps {ls : List Label} (h : Undisturbed s c ls c') : Steps s c ls c' := by
  induction h with
  | nil c => exact .nil c
  | cons first _ _ ih => exact .cons first ih

theorem Undisturbed.concat {a b c : Connection} {ls : List Label} {l : Label}
    (h : Undisturbed s a ls b) (step : b.step s l = some c)
    (calm : l.loopReads ≠ [] → c.isClosed = false) : Undisturbed s a (ls ++ [l]) c := by
  induction h with
  | nil b => exact .cons step calm (.nil c)
  | cons first calm' _ ih => exact .cons first calm' (ih step)

theorem isClosed_steps {ls : List Label} (hk : Kept c) (run : Steps s c ls c')
    (hc : c.isClosed = true) : c'.isClosed = true := by
  obtain ⟨calls, hstretch⟩ := (advances_steps false run hk nofun nofun).stretch
  exact hstretch.isClosed hk.settled hc

/-- A connection that is open in the end has not been closed on the way. -/
theorem undisturbed_of_open {ls : List Label} (run : Steps s c ls c') (hk : Kept c)
    (hopen : c'.isClosed = false) : Undisturbed s c ls c' := by
  induction run with
  | nil c => exact .nil c
  | @cons a b c l ls first rest ih =>
    have hkept := (advances_step false hk nofun nofun first).kept
    refine .cons first (fun _ => ?_) (ih hkept hopen)
    cases hb : b.isClosed with
    | false => rfl
    | true => exact (isClosed_steps hkept rest hb).symm.trans hopen

theorem isClosed_boundBuffer (hopen : ∀ caller cb, (s.handler.react caller cb).KeepsOpen)
    (c : Connection) (b : Accumulator) : (c.boundBuffer s b).1.isClosed = c.isClosed := by
  unfold boundBuffer
  split
  · exact congrArg (fun stage => decide (stage ≠ .live)) (stage_report hopen _ _)
  · rfl

theorem isOpen_readerRound (hlive : c.isClosed = false) (buffer : Accumulator) (b : Backoff) :
    (c.readerRound s buffer b).isClosed = false := by
  obtain ⟨taken, limiter, h⟩ := tryAcquire_eq c
  rw [readerRound, if_neg (Bool.eq_false_iff.1 hlive), h]
  cases taken <;> exact hlive

/-- With a handler that never closes, octets leave the connection open that find it open. -/
theorem isOpen_of_read (hopen : ∀ caller cb, (s.handler.react caller cb).KeepsOpen) {d : Octets}
    (hlive : c.isClosed = false) (hd : d ≠ [])
    (h : c.step s (.wake .reader (.read (.ok d))) = some c') : c'.isClosed = false := by
  cases readerStep_of h with
  | goes reading read | fails reading read =>
    obtain ⟨d', b, hp, _⟩ | ⟨_, hdry, _⟩ := stepRead_cases read
    · cases hp
    · exact absurd (hdry d rfl) hd
  | @hears _ job buffer c₁ d₁ b reading read =>
    obtain ⟨d', b', hp, hw, _, rfl⟩ | ⟨_, _, hnot⟩ := stepRead_cases read
    · have hdrain := drain_keeps_open hopen (c := c.touch.record (.bytesRead d'.length)) hlive
        (buffer.held ++ d₁)
      exact isOpen_readerRound ((isClosed_boundBuffer hopen _ _).trans hdrain) _ _
    · exact absurd rfl (hnot d₁ b)

/-- So such a run is undisturbed if each read finds the connection open. -/
theorem undisturbed_of_keepsOpen (hopen : ∀ caller cb, (s.handler.react caller cb).KeepsOpen)
    {ls : List Label} (run : Steps s c ls c')
    (hfinds : ∀ before l after a, ls = before ++ l :: after → Steps s c before a →
      l.loopReads ≠ [] → a.isClosed = false) : Undisturbed s c ls c' := by
  induction run with
  | nil c => exact .nil c
  | @cons a b c l ls first _ ih =>
    refine .cons first (fun hl => ?_) (ih fun before l' after a' hls hsteps => ?_)
    · have hlive := hfinds [] l ls a rfl (.nil a) hl
      obtain ⟨d, rfl, hd⟩ := exists_read_of_loopReads hl
      exact isOpen_of_read hopen hlive hd first
    · exact hfinds (l :: before) l' after a' (by rw [hls]; rfl) (.cons first hsteps)

theorem heard_of_receipt {ticket : Nat} {c₁ : Connection} (h : Receipt s c₁ ticket c') :
    c'.heard = c₁.heard := by
  cases h with
  | waits _ _ rest => exact rest.heard.trans (List.append_nil _)
  | answers _ rest => exact rest.heard.trans (List.append_nil _)
  | fails _ _ _ rest => exact rest.heard.trans (List.append_nil _)

/-- Nothing is heard of but what the read loop reads. -/
theorem heard_of_step {l : Label} (h : c.step s l = some c') (hl : l.loopReads = []) :
    c'.heard = c.heard := by
  cases intake_of_step h with
  | still _ _ rest => exact rest.heard.trans (List.append_nil _)
  | begins _ _ _ _ rest => exact rest.heard.trans (List.append_nil _)
  | sends _ rest => exact rest.heard.trans (List.append_nil _)
  | drives _ _ _ rest => exact rest.heard.trans (List.append_nil _)
  | loops turn =>
    cases turn with
    | asks _ rest => exact rest.heard.trans (List.append_nil _)
    | takes _ _ _ _ rest => exact rest.heard.trans (List.append_nil _)
    | waits _ _ _ rest => exact rest.heard.trans (List.append_nil _)
    | hears fed => cases (loopReads_read fed).symm.trans hl
  | joins rest => exact rest.heard.trans (List.append_nil _)
  | enters _ receipt =>
    have hheard : c'.heard = c.inLine.heard := heard_of_receipt receipt
    exact hheard
  | goes _ _ receipt => exact heard_of_receipt receipt
  | @gets ticket d _ _ _ receipt =>
    have hheard : c'.heard = heard
        { c.record (.bytesRead d.length) with pending := c.pending.append d } :=
      heard_of_receipt receipt
    exact hheard

theorem heard_of_undisturbed (hroom : s.framing.HoldsHeader) {ls : List Label}
    (run : Undisturbed s c ls c') :
    ∀ {pieces}, Kept c → Delivered s pieces c → c.heard = (feed s.framing [] pieces).1 →
      c'.heard = (feed s.framing [] (pieces ++ ls.flatMap Label.loopReads)).1 := by
  induction run with
  | nil c =>
    intro pieces _ _ hheard
    rw [List.flatMap_nil, List.append_nil]
    exact hheard
  | @cons a b c l ls first calm _ ih =>
    intro pieces hk hd hheard
    have hkept := (advances_step false hk nofun nofun first).kept
    have hb := delivered_step (fun _ => hroom) hk hd first
    have hnow : b.heard = (feed s.framing [] (pieces ++ l.loopReads)).1 := by
      by_cases hl : l.loopReads = []
      · rw [heard_of_step first hl, hl, List.append_nil, hheard]
      · exact hb.of_open (calm hl)
    have hrest := ih hkept hb hnow
    rwa [List.append_assoc] at hrest

/-- What the handler hears of messages and of errors of the framing is what a decoder makes of the
octets that the read loop reads, read for read; what is then left in its buffer gives nothing by
itself; and as many octets are counted as have been read, by the loop and by direct receives. -/
theorem delivered_as_read (hmax : 64 ≤ s.framing.maxMessageSize) {ls : List Label}
    (run : Undisturbed s (new s) ls c) :
    c.heard = (feed s.framing [] (ls.flatMap Label.loopReads)).1 ∧
      (∀ buffer, c.reader.buffer? = some buffer →
        buffer = (feed s.framing [] (ls.flatMap Label.loopReads)).2) ∧
      s.framing.unpack (feed s.framing [] (ls.flatMap Label.loopReads)).2 = .error .short ∧
      c.metrics.bytesReceived =
        .ofNat (ls.flatMap fun l => l.directReads ++ l.loopReads).flatten.length := by
  have hroom := Framing.holdsHeader_of_limit hmax
  have hd : Delivered s (ls.flatMap Label.loopReads) c :=
    delivered_steps run.steps (fun _ => hroom) (kept_new s) (delivered_new s)
  refine ⟨heard_of_undisturbed hroom run (kept_new s) (delivered_new s) rfl,
    fun buffer hb => (hd.going buffer hb).2, Codec.short_feed (Codec.short_nil _), ?_⟩
  rw [(counted_of_steps run.steps).bytesReceived]
  exact UInt64.zero_add _

/-- One token every tenth of a second. A frame with a wrong check and a message come in three
reads; between them the loop pauses for a token, a read fails and is tried again, and a deadline
passes while others write. Then the stream ends. -/
theorem delivered_as_read_of_pauses :
    let s : Setup :=
      { id := 1, peer := none, localAddress := none, framing := .binary 64 64,
        settings := { ConnectionSettings.standard with rateLimit := .ofNat 10, rateBurst := 1 },
        handler := .quiet, chance := fun _ delay => delay }
    let pieces : List Octets :=
      [[1, 0, 0], [0, 2, 0, 0, 0, 3, 0, 0, 0, 1, 7, 0, 0, 0, 0, 0xCA, 0xFE, 1],
        [0, 0, 0, 2, 0, 0, 0, 3, 0, 0, 0, 2, 0xCA, 0xFE, 111, 56, 79, 226, 0xCA, 0xFE]]
    let ls : List Label :=
      [.start .readWrite, .wake .reader .go,
        .wake .reader (.read (.ok [1, 0, 0])),
        .tick (.ofMillis 100) (.ofMillis 100), .wake .reader .timer,
        .wake .reader (.read (.error (.ofKind .interrupted))),
        .tick (.ofMillis 1000) (.ofMillis 1000), .wake .reader .timer,
        .tick (.ofMillis 300000) 0, .wake .reader .timer,
        .wake .reader (.read (.ok [0, 2, 0, 0, 0, 3, 0, 0, 0, 1, 7, 0, 0, 0, 0, 0xCA, 0xFE, 1])),
        .wake .reader (.read (.ok
          [0, 0, 0, 2, 0, 0, 0, 3, 0, 0, 0, 2, 0xCA, 0xFE, 111, 56, 79, 226, 0xCA, 0xFE])),
        .tick (.ofMillis 100) (.ofMillis 100), .wake .reader .timer]
    ∃ c, 64 ≤ s.framing.maxMessageSize ∧
      Undisturbed s (new s) (ls ++ [.wake .reader (.read (.ok []))]) c ∧
      c.callbacks.map (·.callback.name) =
        ["on_connect", "on_error", "on_error", "on_message", "on_error", "on_close"] ∧
      c.heard = (feed s.framing [] pieces).1 ∧ c.metrics.bytesReceived = 41 := by
  intro s pieces ls
  have hseen : ((follow s (new s) ls).bind fun c =>
      (c.step s (.wake .reader (.read (.ok [])))).map fun c' =>
        (c.isClosed, c'.callbacks.map (·.callback.name))) =
      some (false,
        ["on_connect", "on_error", "on_error", "on_message", "on_error", "on_close"]) := by
    decide +kernel
  obtain ⟨c, hrun, hseen⟩ := Option.bind_eq_some_iff.1 hseen
  obtain ⟨c', hend, hseen⟩ := Option.map_eq_some_iff.1 hseen
  obtain ⟨hopen, hcalls⟩ := Prod.mk.inj hseen
  have hcalm : Undisturbed s (new s) (ls ++ [.wake .reader (.read (.ok []))]) c' :=
    (undisturbed_of_open (steps_of_follow hrun) (kept_new s) hopen).concat hend
      fun h => absurd rfl h
  have hmax : 64 ≤ s.framing.maxMessageSize := Nat.le_refl _
  obtain ⟨hheard, _, _, hcount⟩ := delivered_as_read hmax hcalm
  exact ⟨c', hmax, hcalm, hcalls, hheard, hcount⟩

end Connection
end FrameEngine
